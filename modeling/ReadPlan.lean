import ReadPlan.Json.Reader
import ReadPlan.Main
import ReadPlan.Session.Run
import ReadPlan.Proofs.Request.Settings
import ReadPlan.Proofs.Pool.Growth
import ReadPlan.Proofs.Selection.Rebuild
import ReadPlan.Proofs.Pool.Select
import ReadPlan.Proofs.Session.Transition
import ReadPlan.Proofs.Session.Sound
import ReadPlan.Proofs.Session.CopyRuns
import ReadPlan.Proofs.Pool.Unshared
import ReadPlan.Proofs.Session.CopyIsolation
import ReadPlan.Proofs.Session.LiftRuns
import ReadPlan.Proofs.Session.Visibility
import ReadPlan.Proofs.Selection.History
import ReadPlan.Proofs.Session.SelectionHistory
import ReadPlan.Proofs.Session.Requests
import ReadPlan.Proofs.Session.Lifted
import ReadPlan.Proofs.Json.Rendered
import ReadPlan.Proofs.Json.RoundTrip
import ReadPlan.Proofs.Request.Text
import ReadPlan.Proofs.Pool.Holders
import ReadPlan.Proofs.Session.SetHolders
import ReadPlan.Proofs.Text.Utf8
import ReadPlan.Proofs.Request.Failures
import ReadPlan.Proofs.Session.Failures
import ReadPlan.Proofs.Request.History
import ReadPlan.Proofs.Session.RequestHistory
import ReadPlan.Proofs.Session.WireVersions
import ReadPlan.Proofs.Pool.Rebuild
import ReadPlan.Proofs.Session.Writes
import ReadPlan.Proofs.Pool.Slices
import ReadPlan.Proofs.Request.Order
import ReadPlan.Proofs.Session.Mutators
import ReadPlan.Proofs.Session.Ledgers
import ReadPlan.Proofs.Session.Order
import ReadPlan.Proofs.Session.Conflicts
import ReadPlan.Proofs.Session.Reordering
import ReadPlan.Proofs.Request.Accessors
import ReadPlan.Proofs.Request.AttributeHistory
import ReadPlan.Proofs.Session.AttributeRuns
import ReadPlan.Proofs.Text.Utf8Forms
import ReadPlan.Proofs.Session.OperationIds
import ReadPlan.Proofs.Session.Batches
import ReadPlan.Proofs.Session.Windows
import ReadPlan.Proofs.Selection.Listings
import ReadPlan.Proofs.Selection.Traversals
import ReadPlan.Proofs.Session.Diagnostics
import ReadPlan.Proofs.Text.Utf8Faults
import ReadPlan.Proofs.Request.Descriptions
import ReadPlan.Proofs.Selection.UncutListings
import ReadPlan.Proofs.Session.Descriptions
import ReadPlan.Proofs.Session.Coverage
import ReadPlan.Proofs.Text.Displays
import ReadPlan.Proofs.Session.IsolationLevels
import ReadPlan.Proofs.Pool.Copies
import ReadPlan.Proofs.Session.MapCopies
