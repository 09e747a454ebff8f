import Datapath.Gate
import Datapath.Json.Reading

/-!
# Rough findings

A finding that somebody else reported may name kinds that are no texts. That is noticed only when
the kinds are put into words, which a decision does for one finding at most.
-/

namespace Datapath

/-- A finding whose kinds may be values of any kind. -/
structure RoughFinding where
  /-- The kinds of the nodes on the path. -/
  kinds : List Json
  /-- The finding apart from its kinds. -/
  rest : Diagnostic

namespace RoughFinding

/-- The finding, if its kinds are texts. -/
def diagnostic (f : RoughFinding) : Except Mishap Diagnostic := do
  return { f.rest with kinds := ← Json.joinable f.kinds }

/-- The findings as far as a decision looks at them: the first path that is too deep is put into
words if findings are treated as errors, and the kinds of the others do not matter. -/
def consulted (findings : List RoughFinding) (elevate : Bool) :
    Except Mishap (List Diagnostic) :=
  match findings with
  | [] => .ok []
  | f :: fs =>
    if elevate && f.rest.isDepthViolation then
      return (← f.diagnostic) :: fs.map (·.rest)
    else return f.rest :: (← consulted fs elevate)

end RoughFinding

end Datapath
