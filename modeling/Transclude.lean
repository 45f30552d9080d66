import Transclude.CommandLine.Run
import Transclude.Document.Equality
import Transclude.Document.Metadata
import Transclude.Document.Prose
import Transclude.Host.Script
import Transclude.Main
import Transclude.Pipeline
import Transclude.Walk.Preorder
import Transclude.Proofs.Splice.Calls
import Transclude.Proofs.Expansion.OnePass
import Transclude.Proofs.Expansion.TwoPhases
import Transclude.Proofs.Expansion.Failure
import Transclude.Proofs.Expansion.Equivalence
import Transclude.Proofs.Json.Members
import Transclude.Proofs.Json.Text
import Transclude.Proofs.Wire.Grammar
import Transclude.Proofs.Wire.Recognition
import Transclude.Proofs.Wire.Reading
import Transclude.Proofs.Wire.Forms
import Transclude.Proofs.Document.WellFormed
import Transclude.Proofs.Wire.Written
import Transclude.Proofs.Wire.Documents
import Transclude.Proofs.Wire.Equality
import Transclude.Proofs.Wire.RoundTrip
import Transclude.Proofs.Walk.Calls
import Transclude.Proofs.Text.Utf8
import Transclude.Proofs.Wire.Text
import Transclude.Proofs.Expansion.Chains
import Transclude.Proofs.Expansion.Success
import Transclude.Proofs.Expansion.Stack
import Transclude.Proofs.Expansion.Standing
import Transclude.Proofs.Expansion.Discipline
import Transclude.Proofs.Expansion.Place
import Transclude.Proofs.Expansion.Idempotence
import Transclude.Proofs.Expansion.Completeness
import Transclude.Proofs.Filter.ReadBack
import Transclude.Proofs.Expansion.Steps
import Transclude.Proofs.Expansion.Lines
import Transclude.Proofs.Filter.KeyOrder
import Transclude.Proofs.Filter.Again
import Transclude.Proofs.Pipeline.Inclusions
import Transclude.Proofs.Filter.AllOrNothing
import Transclude.Proofs.Splice.Substitution
import Transclude.Proofs.Wire.FirstFault
import Transclude.Proofs.Path.Nested
import Transclude.Proofs.Directive.Printing
import Transclude.Proofs.Walk.Crossing
import Transclude.Proofs.Splice.Termination
import Transclude.Proofs.CommandLine.Outputs
import Transclude.Proofs.Document.Prose
