import GradualScript.Main
import GradualScript.Proofs.Scope.Growth
import GradualScript.Proofs.Scope.Links
import GradualScript.Proofs.Scope.Changes
import GradualScript.Proofs.Scope.Collection
import GradualScript.Proofs.Check.Frame
import GradualScript.Proofs.Check.Elaboration
import GradualScript.Proofs.Check.Accepted
import GradualScript.Proofs.Check.Prototypes
import GradualScript.Proofs.Check.WellTyped
import GradualScript.Proofs.Run.Ends
import GradualScript.Proofs.Run.Writes
import GradualScript.Proofs.Run.Extends
import GradualScript.Proofs.Run.Names
import GradualScript.Proofs.Run.Mirror
import GradualScript.Proofs.Run.Ground
import GradualScript.Proofs.Run.FirstOrder
import GradualScript.Proofs.Check.Uses
import GradualScript.Proofs.Run.Plans
import GradualScript.Proofs.Check.Uniform
import GradualScript.Proofs.Run.Shaped
import GradualScript.Proofs.Run.Calls
import GradualScript.Proofs.Run.Arity
import GradualScript.Proofs.Run.Conformance
import GradualScript.Proofs.Check.Members
import GradualScript.Proofs.Run.Captures
import GradualScript.Proofs.Check.Steady
import GradualScript.Proofs.Run.Planned
import GradualScript.Proofs.Run.Results
import GradualScript.Proofs.Run.Stage
import GradualScript.Proofs.Run.Discipline
import GradualScript.Proofs.Run.Environment
import GradualScript.Proofs.Check.Tour
import GradualScript.Proofs.Check.Residue
import GradualScript.Proofs.Run.Lines
import GradualScript.Proofs.Sessions
import GradualScript.Proofs.Run.Lineage
import GradualScript.Proofs.Run.Origins
import GradualScript.Proofs.Run.Methods
import GradualScript.Proofs.Run.Sequences
import GradualScript.Proofs.Syntax.Likeness
import GradualScript.Proofs.Run.InStep
import GradualScript.Proofs.Run.Erasure
import GradualScript.Proofs.Run.Unrolling
import GradualScript.Proofs.Run.ControlFlow
import GradualScript.Proofs.Blame
import GradualScript.Proofs.Decimal.Text
import GradualScript.Proofs.Syntax.RoundTrip
import GradualScript.Proofs.Decimal.Division
import GradualScript.Proofs.Ty.Order
import GradualScript.Proofs.Ty.Inheritance
import GradualScript.Proofs.Check.Outline
import GradualScript.Proofs.Run.TopLevel
import GradualScript.Proofs.Check.Annotations
import GradualScript.Proofs.Run.Trimming
import GradualScript.Proofs.Run.Records
import GradualScript.Proofs.Run.Renaming
import GradualScript.Proofs.Run.Purity
