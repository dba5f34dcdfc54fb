import Intake.FileTree.Edit
import Intake.Proofs.FileTree.Walk
import Intake.Proofs.Load.Contents
import Intake.Proofs.Load.Reasons
import Intake.Proofs.Load.Verdict
import Intake.Proofs.Location.Batches
import Intake.Proofs.Location.Sorting
import Intake.Proofs.Outcome.Pipeline
import Intake.Proofs.Path.Composition
import Intake.Proofs.Path.Normalization
import Intake.Proofs.Wire.Agreement
import Intake.Proofs.Wire.Denotation
import Intake.Proofs.Wire.MalformedOutcome
import Intake.Proofs.Wire.Nesting
import Intake.Proofs.Wire.Origin
import Intake.Proofs.Wire.RecordRoundTrip
import Intake.Proofs.Wire.Reencoding
import Intake.Proofs.Wire.Rejection
import Intake.Proofs.Wire.Truncation
import Intake.Wire.Narrow
import Intake.Wire.Shape
import Intake.Wire.Text
