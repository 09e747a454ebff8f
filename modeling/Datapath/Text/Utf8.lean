import Datapath.Text.Quoted

/-!
# UTF-8

Files are sequences of octets. `Utf8.decode` turns them into characters and stops at the first
ill-formed sequence; `Utf8.decodeLossy` drops ill-formed sequences and goes on.

The lead octet of a sequence fixes its length and the range of the octet after it: the ranges after
`E0`, `ED`, `F0` and `F4` are narrower than those of a plain continuation octet, which is what
excludes overlong forms, surrogates and values beyond `10FFFF`. An ill-formed sequence ends before
the first octet that cannot continue it.
-/

namespace Datapath.Utf8

/-- Why a sequence of octets is no character. -/
inductive Flaw where
  /-- The octet cannot start a sequence. -/
  | start
  /-- The octet after a correct beginning cannot continue it. -/
  | continuation
  /-- The octets end inside a sequence. -/
  | truncated
deriving DecidableEq, Repr, Inhabited

/-- The wording of a flaw. -/
def Flaw.reason : Flaw → String
  | .start => "invalid start byte"
  | .continuation => "invalid continuation byte"
  | .truncated => "unexpected end of data"

/-- A flaw with the octets that show it. -/
structure Error where
  /-- The position of the first octet of the sequence. -/
  position : Nat
  /-- The number of octets in the ill-formed sequence. -/
  count : Nat
  /-- Its first octet. -/
  octet : Nat
  flaw : Flaw
deriving DecidableEq, Repr, Inhabited

/-- The wording of an error: a single octet is shown, several are only located. -/
def Error.message (e : Error) : String :=
  "'utf-8' codec can't decode " ++
    (if e.count = 1 then s!"byte 0x{Text.hex 2 e.octet} in position {e.position}"
      else s!"bytes in position {e.position}-{e.position + e.count - 1}") ++
    ": " ++ e.flaw.reason

/-- For the lead octet of a longer sequence: the number of continuation octets, the range of the
first of them, and the bits that the lead octet contributes. -/
def lead? (b : Nat) : Option (Nat × Nat × Nat × Nat) :=
  if 0xc2 ≤ b ∧ b ≤ 0xdf then some (1, 0x80, 0xbf, b - 0xc0)
  else if b = 0xe0 then some (2, 0xa0, 0xbf, 0)
  else if b = 0xed then some (2, 0x80, 0x9f, 0xd)
  else if 0xe1 ≤ b ∧ b ≤ 0xef then some (2, 0x80, 0xbf, b - 0xe0)
  else if b = 0xf0 then some (3, 0x90, 0xbf, 0)
  else if b = 0xf4 then some (3, 0x80, 0x8f, 4)
  else if 0xf1 ≤ b ∧ b ≤ 0xf3 then some (3, 0x80, 0xbf, b - 0xf0)
  else none

/-- The code point spelled by the octets that continue a sequence, `missing` of them, the next one
between `low` and `high`; a flaw comes with the number of octets that were right. -/
def continue? : (missing low high acc : Nat) → List Nat → Except (Flaw × Nat) Nat
  | 0, _, _, acc, _ => .ok acc
  | _ + 1, _, _, _, [] => .error (.truncated, 0)
  | missing + 1, low, high, acc, b :: rest =>
    if low ≤ b ∧ b ≤ high then
      match continue? missing 0x80 0xbf (acc * 64 + (b - 0x80)) rest with
      | .ok code => .ok code
      | .error (flaw, right) => .error (flaw, right + 1)
    else .error (.continuation, 0)

/-- The first character of a non-empty sequence of octets with its length, or the flaw there with
the length of the ill-formed sequence. -/
def first (b : Nat) (rest : List Nat) : Except (Flaw × Nat) (Char × Nat) :=
  if b < 0x80 then .ok (Char.ofNat b, 1)
  else
    match lead? b with
    | none => .error (.start, 1)
    | some (missing, low, high, bits) =>
      match continue? missing low high bits rest with
      | .ok code => .ok (Char.ofNat code, missing + 1)
      | .error (flaw, right) => .error (flaw, right + 1)

/-- Decodes octets from a position on; `skip` octets belong to the character before. -/
def decodeFrom : (position skip : Nat) → List Nat → Except Error (List Char)
  | _, _, [] => .ok []
  | position, skip + 1, _ :: rest => decodeFrom (position + 1) skip rest
  | position, 0, b :: rest =>
    match first b rest with
    | .error (flaw, count) => .error ⟨position, count, b, flaw⟩
    | .ok (c, length) =>
      match decodeFrom (position + 1) (length - 1) rest with
      | .ok cs => .ok (c :: cs)
      | .error e => .error e

/-- Decodes octets, and stops at the first ill-formed sequence. -/
def decode (octets : List Nat) : Except Error (List Char) := decodeFrom 0 0 octets

/-- Decodes octets and drops ill-formed sequences; `skip` octets are already used up. -/
def decodeLossyFrom : (skip : Nat) → List Nat → List Char
  | _, [] => []
  | skip + 1, _ :: rest => decodeLossyFrom skip rest
  | 0, b :: rest =>
    match first b rest with
    | .error (_, count) => decodeLossyFrom (count - 1) rest
    | .ok (c, length) => c :: decodeLossyFrom (length - 1) rest

/-- Decodes octets and drops ill-formed sequences. -/
def decodeLossy (octets : List Nat) : List Char := decodeLossyFrom 0 octets

def encodeChar (c : Char) : List Nat :=
  let n := c.toNat
  if n < 0x80 then [n]
  else if n < 0x800 then [0xc0 + n / 64, 0x80 + n % 64]
  else if n < 0x10000 then [0xe0 + n / 4096, 0x80 + n / 64 % 64, 0x80 + n % 64]
  else [0xf0 + n / 262144, 0x80 + n / 4096 % 64, 0x80 + n / 64 % 64, 0x80 + n % 64]

def encode (s : String) : List Nat := s.toList.flatMap encodeChar

end Datapath.Utf8
