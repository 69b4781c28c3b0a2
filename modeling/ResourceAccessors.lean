import ResourceAccessors.Main
import ResourceAccessors.Text.Template
import ResourceAccessors.Proofs.Encoding.RoundTrip
import ResourceAccessors.Proofs.FileSystem.Tree
import ResourceAccessors.Proofs.FileSystem.Walk
import ResourceAccessors.Proofs.FileSystem.Growth
import ResourceAccessors.Proofs.Output.Settled
import ResourceAccessors.Proofs.Conversion.Stepped
import ResourceAccessors.Proofs.Action
import ResourceAccessors.Proofs.Conversion.Escape
import ResourceAccessors.Proofs.Run.Accounting
import ResourceAccessors.Proofs.Run.Repeated
import ResourceAccessors.Proofs.FileSystem.Touched
import ResourceAccessors.Proofs.FileSystem.Laid
import ResourceAccessors.Proofs.FileSystem.Alike
import ResourceAccessors.Proofs.Conversion.Effect
import ResourceAccessors.Proofs.Run.Footprint
import ResourceAccessors.Proofs.Run.Interrupted
import ResourceAccessors.Proofs.Conversion.Alike
import ResourceAccessors.Proofs.Run.Contents
import ResourceAccessors.Proofs.Run.Isolated
import ResourceAccessors.Proofs.FileSystem.Overlong
import ResourceAccessors.Proofs.Scan.Decided
import ResourceAccessors.Proofs.Run.Course
import ResourceAccessors.Proofs.Run.Rooted
import ResourceAccessors.Proofs.Run.Reported
import ResourceAccessors.Proofs.BuildStep
import ResourceAccessors.Proofs.Run.Encoded
import ResourceAccessors.Proofs.Run.Transcript
import ResourceAccessors.Proofs.Run.Advancing
import ResourceAccessors.Proofs.Text.Template
import ResourceAccessors.Proofs.Run.Quiet
import ResourceAccessors.Proofs.CommandLine
import ResourceAccessors.Proofs.Conversion.Aside
import ResourceAccessors.Proofs.Run.Framed
import ResourceAccessors.Proofs.Conversion.Atomic
import ResourceAccessors.Proofs.Encoding.Marks
import ResourceAccessors.Proofs.TextFile.Compared
import ResourceAccessors.Proofs.Scan.Exact
import ResourceAccessors.Proofs.Root
import ResourceAccessors.Proofs.Pattern.Split
import ResourceAccessors.Proofs.Report
import ResourceAccessors.Proofs.Loading.Faults
import ResourceAccessors.Proofs.Root.Stable
import ResourceAccessors.Proofs.FileSystem.Unsaved
import ResourceAccessors.Proofs.Loading.Registered
import ResourceAccessors.Proofs.Run.Noted
import ResourceAccessors.Proofs.CommandLine.Announced
