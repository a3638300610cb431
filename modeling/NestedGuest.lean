import NestedGuest.Bench.Sessions
import NestedGuest.Memory.Request
import NestedGuest.Observe.SpanCapture
import NestedGuest.RamHolders
import NestedGuest.Proofs.Bitmap
import NestedGuest.Proofs.Bitmap.Members
import NestedGuest.Proofs.Quota
import NestedGuest.Proofs.Paging.Entry
import NestedGuest.Proofs.Paging.Levels
import NestedGuest.Proofs.Paging.TableArray
import NestedGuest.Proofs.Paging.Placement
import NestedGuest.Proofs.Paging.Edits
import NestedGuest.Proofs.Paging.Insertion
import NestedGuest.Proofs.Paging.Exactness
import NestedGuest.Proofs.Paging.Tree
import NestedGuest.Proofs.Memory.Attach
import NestedGuest.Proofs.Memory.Flush
import NestedGuest.Proofs.Memory.Metadata
import NestedGuest.Proofs.Session.Effects
import NestedGuest.Proofs.Session.History
import NestedGuest.Proofs.Session.Translations
import NestedGuest.Proofs.Paging.Tables
import NestedGuest.Proofs.Session.Accounting
import NestedGuest.Proofs.Session.Undo
import NestedGuest.Proofs.Session.Journal
import NestedGuest.Proofs.Vmid
import NestedGuest.Proofs.Session.Teardown
import NestedGuest.Proofs.Paging.Twins
import NestedGuest.Proofs.Memory.Walk
import NestedGuest.Proofs.Memory.History
import NestedGuest.Proofs.Memory.Notices
import NestedGuest.Proofs.Memory.Granularity
import NestedGuest.Proofs.Session.Release
import NestedGuest.Proofs.Session.Lookups
import NestedGuest.Proofs.Session.Reserved
import NestedGuest.Proofs.Session.Identities
import NestedGuest.Proofs.Session.Occupancy
import NestedGuest.Proofs.Paging.Windows
import NestedGuest.Proofs.Memory.Offers
import NestedGuest.Proofs.Session.Order
import NestedGuest.Proofs.Session.Formats
import NestedGuest.Proofs.Memory.Verdict
import NestedGuest.Proofs.Args.Quoting
import NestedGuest.Proofs.Session.Permissions
import NestedGuest.Proofs.Session.Records
import NestedGuest.Proofs.Memory.Finding
import NestedGuest.Proofs.Memory.Detach
import NestedGuest.Proofs.Paging.Outcome
import NestedGuest.Proofs.Session.Creation
import NestedGuest.Proofs.Paging.Largest
import NestedGuest.Proofs.Args.Numbers
import NestedGuest.Proofs.RamHolders
import NestedGuest.Proofs.Checked.Session
import NestedGuest.Proofs.Session.Vmids
import NestedGuest.Proofs.Paging.Lending
import NestedGuest.Proofs.Paging.Codec
