import Datapath.Assessment
import Datapath.CommandLine.Grammar
import Datapath.CommandLine.Request
import Datapath.CommandLine.Run
import Datapath.CommandLine.Words
import Datapath.Config
import Datapath.Depth
import Datapath.Diagnostic
import Datapath.Digraph.Component
import Datapath.Digraph.Path
import Datapath.Double
import Datapath.Double.Arithmetic
import Datapath.Double.Decimal
import Datapath.Draft
import Datapath.Extent
import Datapath.Failure
import Datapath.Fault
import Datapath.Gate
import Datapath.Graph.Basic
import Datapath.Graph.Document
import Datapath.Graph.Dot
import Datapath.Graph.Layout
import Datapath.Graph.Malformed
import Datapath.Graph.Node
import Datapath.Graph.Size
import Datapath.Host
import Datapath.Host.Memory
import Datapath.Host.Shell
import Datapath.Inference
import Datapath.Interval
import Datapath.Json
import Datapath.Json.Arithmetic
import Datapath.Json.Order
import Datapath.Json.Printer
import Datapath.Json.Reader
import Datapath.Json.Reading
import Datapath.Json.Sorting
import Datapath.Knobs
import Datapath.Log
import Datapath.Magnitude
import Datapath.Main
import Datapath.Misconfigured
import Datapath.Mishap
import Datapath.Number
import Datapath.Oracle
import Datapath.PathName
import Datapath.Platform
import Datapath.Policy
import Datapath.Rough.Depth
import Datapath.Rough.Finding
import Datapath.Rough.Graph
import Datapath.Rough.Inference
import Datapath.Rough.Layout
import Datapath.Rough.Pool
import Datapath.Text.Character
import Datapath.Text.Lines
import Datapath.Text.Literal
import Datapath.Text.Printable
import Datapath.Text.Quoted
import Datapath.Text.Utf8
import Datapath.TimingReport
import Datapath.Tuning
import Datapath.Proofs.Assessment
import Datapath.Proofs.CommandLine
import Datapath.Proofs.Host
import Datapath.Proofs.Depth
import Datapath.Proofs.Depth.Chain
import Datapath.Proofs.Digraph.Bound
import Datapath.Proofs.Digraph.Component
import Datapath.Proofs.Digraph.Path
import Datapath.Proofs.Gate
import Datapath.Proofs.Graph.Built
import Datapath.Proofs.Graph.Document
import Datapath.Proofs.Graph.Feedback
import Datapath.Proofs.Graph.Legal
import Datapath.Proofs.Graph.Loop
import Datapath.Proofs.Graph.Order
import Datapath.Proofs.Graph.Validation
import Datapath.Proofs.Inference.Convergence
import Datapath.Proofs.Inference.Execution
import Datapath.Proofs.Inference.Locality
import Datapath.Proofs.Inference.Loop
import Datapath.Proofs.Inference.Solution
import Datapath.Proofs.Inference.Totality
import Datapath.Proofs.Inference.Width
import Datapath.Proofs.Interval.Soundness
import Datapath.Proofs.Outcome
import Datapath.Proofs.Graph.Decoding
import Datapath.Proofs.Graph.Normalisation
import Datapath.Proofs.Interval.Monotonicity
import Datapath.Proofs.Inference.Monotonicity
import Datapath.Proofs.Draft
import Datapath.Proofs.Digraph.Shortest
import Datapath.Proofs.Graph.Cycle
import Datapath.Proofs.Inference.History
import Datapath.Proofs.Inference.LeastFixpoint
import Datapath.Proofs.Interval.Optimality
import Datapath.Proofs.Depth.Classes
import Datapath.Proofs.Graph.Tangle
import Datapath.Proofs.Graph.Run
import Datapath.Proofs.Inference.Cap
import Datapath.Proofs.Inference.Machine
import Datapath.Proofs.Depth.Monotonicity
import Datapath.Proofs.Text
import Datapath.Proofs.TimingReport
import Datapath.Proofs.Double.Ratio
import Datapath.Proofs.Double.Rounding
import Datapath.Proofs.Double.Shortest
import Datapath.Proofs.Double.Writing
import Datapath.Proofs.Platform
import Datapath.Proofs.Policy
import Datapath.Proofs.Config
import Datapath.Proofs.Picture
import Datapath.Proofs.Graph.Drawing
import Datapath.Proofs.Interval.Widening
