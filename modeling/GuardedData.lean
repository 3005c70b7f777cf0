import GuardedData.Diagnostic
import GuardedData.Files.FileTree
import GuardedData.Main
import GuardedData.Proofs.Double.Rounding
import GuardedData.Proofs.Model.Bare
import GuardedData.Proofs.Model.Batching
import GuardedData.Proofs.Model.Conduct
import GuardedData.Proofs.Model.Conformance
import GuardedData.Proofs.Model.Creation
import GuardedData.Proofs.Model.Delivery
import GuardedData.Proofs.Model.DirectEdit
import GuardedData.Proofs.Model.Flush
import GuardedData.Proofs.Model.Judgement
import GuardedData.Proofs.Model.Ledger
import GuardedData.Proofs.Model.Misplaced
import GuardedData.Proofs.Model.Misread
import GuardedData.Proofs.Model.Order
import GuardedData.Proofs.Model.Outcome
import GuardedData.Proofs.Model.Overlap
import GuardedData.Proofs.Model.Precedence
import GuardedData.Proofs.Model.Run
import GuardedData.Proofs.Model.Solvency
import GuardedData.Proofs.Model.Transparency
import GuardedData.Proofs.Path.Composition
import GuardedData.Proofs.Path.Related
import GuardedData.Proofs.Replay.Prefix
import GuardedData.Proofs.Replay.Verdict
import GuardedData.Proofs.Schema.Diagnostics
import GuardedData.Proofs.Schema.Literals
import GuardedData.Proofs.Schema.Mentioned
import GuardedData.Proofs.Schema.Nullable
import GuardedData.Proofs.Schema.Piecewise
import GuardedData.Proofs.Schema.Recheck
import GuardedData.Proofs.Schema.Reordering
import GuardedData.Proofs.Schema.Rooting
import GuardedData.Proofs.Schema.WatchOrder
import GuardedData.Proofs.Store.Frame
import GuardedData.Proofs.Store.Notice
import GuardedData.Proofs.Store.Silence
import GuardedData.Proofs.Toml.Conversion
import GuardedData.Proofs.Toml.Distinct
import GuardedData.Proofs.Value.Distinct
import GuardedData.Proofs.Value.Location
