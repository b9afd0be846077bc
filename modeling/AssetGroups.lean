import AssetGroups.Http.Router
import AssetGroups.Inventory.Document
import AssetGroups.Json.Remark
import AssetGroups.Main
import AssetGroups.Proofs.Backup.RoundTrip
import AssetGroups.Proofs.Inventory.Hosting
import AssetGroups.Proofs.Inventory.Places
import AssetGroups.Proofs.Job.Failure
import AssetGroups.Proofs.Job.Ids
import AssetGroups.Proofs.Lock.Line
import AssetGroups.Proofs.Lock.Waking
import AssetGroups.Proofs.Resolver.Edit
import AssetGroups.Proofs.Resolver.Errors
import AssetGroups.Proofs.Store.Refinement
import AssetGroups.Settings.Basic
import AssetGroups.Store.Operation
import AssetGroups.Proofs.Event.Announcing
import AssetGroups.Proofs.Event.Ledger
import AssetGroups.Proofs.Event.Stream
import AssetGroups.Proofs.Backup.Restore
import AssetGroups.Proofs.Inventory.Matching
import AssetGroups.Proofs.Backup.Acceptance
import AssetGroups.Proofs.Resolver.Strength
import AssetGroups.Proofs.Resolver.Trail
import AssetGroups.Proofs.Rule.Check
import AssetGroups.Proofs.Text.Numerals
import AssetGroups.Proofs.Resolver.Cycle
import AssetGroups.Proofs.Resolver.Rearrangement
import AssetGroups.Proofs.Job.Removal
import AssetGroups.Proofs.Resolver.Reach
import AssetGroups.Proofs.Backup.Longest
import AssetGroups.Proofs.Store.Fresh
import AssetGroups.Proofs.Lock.Writers
import AssetGroups.Proofs.Job.Unreadable
import AssetGroups.Proofs.Job.Texts
import AssetGroups.Proofs.Inventory.Attributes
