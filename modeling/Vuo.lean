import Vuo.Foundation.Table
import Vuo.Foundation.Program
import Vuo.Model.Error
import Vuo.Model.Domain
import Vuo.Model.Wire
import Vuo.Model.Database
import Vuo.Model.Outbox
import Vuo.Model.Store
import Vuo.Model.Effects
import Vuo.Model.Client
import Vuo.Model.Replay
import Vuo.Model.Pull
import Vuo.Model.Sync
import Vuo.Model.Http
import Vuo.Model.Listing
import Vuo.Model.Announcer
import Vuo.Model.Search
import Vuo.Model.Content.Block
import Vuo.Model.Content.Transform
import Vuo.Model.Content.Article
import Vuo.Model.Shim.Signal
import Vuo.Model.Shim.Pages
import Vuo.Model.Shim.App
import Vuo.Model.Shim.Worker
import Vuo.Verification.World
import Vuo.Verification.Mirror.Equations
import Vuo.Verification.Mirror.View
import Vuo.Verification.Mirror.PendingWins
import Vuo.Verification.Replay.Drops
import Vuo.Verification.Pull.Anchor
import Vuo.Foundation.Paging
import Vuo.Verification.Deletions.Rules
import Vuo.Verification.Deletions.Catalog
import Vuo.Verification.Deletions.Reconcile
import Vuo.Foundation.Worker
import Vuo.Foundation.Trace
import Vuo.Verification.Calls
import Vuo.Verification.Mirror.Bookkeeping
import Vuo.Verification.Pass
import Vuo.Verification.Pull.Journal
import Vuo.Verification.Pull.NoGaps
import Vuo.Verification.Replay.Record
import Vuo.Verification.Mirror.Removals
import Vuo.Verification.Deletions.Losses
import Vuo.Verification.Replay.Batches
import Vuo.Verification.Replay.Convergence
import Vuo.Verification.Replay.Ledger
import Vuo.Verification.Http.Origin
import Vuo.Verification.Mirror.Arrivals
import Vuo.Verification.Shim.Notices
import Vuo.Verification.Shim.Reloads
import Vuo.Verification.Content.Frames
import Vuo.Verification.Content.Skip
import Vuo.Verification.Content.Consent
import Vuo.Verification.Content.StyledText
import Vuo.Verification.Mirror.Visible
import Vuo.Verification.Shim.Announced
import Vuo.Foundation.Serde
import Vuo.Model.Decoding
import Vuo.Verification.Pull.Isolation
import Vuo.Verification.Content.Edits
import Vuo.Verification.Content.Caps
import Vuo.Verification.Content.Held
import Vuo.Verification.Content.Cuts
import Vuo.Verification.Content.Limits
import Vuo.Verification.Content.PlainText
import Vuo.Verification.Content.Inline
import Vuo.Verification.Content.Nesting
import Vuo.Verification.Content.BlockNesting
import Vuo.Verification.Mirror.Upserts
import Vuo.Verification.Pull.Partition
import Vuo.Verification.Mirror.ForeignKeys
import Vuo.Verification.Deletions.Taxonomy
import Vuo.Verification.Icons
import Vuo.Verification.Mirror.Marking
import Vuo.Foundation.Sql
import Vuo.Model.Queries
import Vuo.Verification.Mirror.ReadPaths
import Vuo.Foundation.Transaction
import Vuo.Model.Migrations
import Vuo.Verification.Migrations
import Vuo.Model.Shim.Loop
import Vuo.Verification.Shim.Spinner
import Vuo.Verification.Content.Chunks
import Vuo.Verification.Shim.Flushes
import Vuo.Verification.Content.Strict
import Vuo.Foundation.Intervals
import Vuo.Model.Marks
import Vuo.Verification.Search.Folding
import Vuo.Verification.Search.Highlight
import Vuo.Verification.Search.Collapse
import Vuo.Model.Shim.Lists
import Vuo.Verification.Search.Excerpt
import Vuo.Verification.Shim.Views
import Vuo.Model.Results
import Vuo.Model.Shim.Entries
import Vuo.Verification.Shim.Kept
import Vuo.Verification.Shim.Groups
import Vuo.Verification.Shim.Paging
import Vuo.Verification.Content.Size
import Vuo.Verification.Content.Copies
import Vuo.Verification.Content.Linear
import Vuo.Verification.Versions
import Vuo.Verification.Shim.Stamps
import Vuo.Model.Icon
import Vuo.Verification.Icon.Jpeg
import Vuo.Foundation.Base64
import Vuo.Verification.Icon.Gate
import Vuo.Model.Shim.Feeds
import Vuo.Verification.Shim.FeedEdits
import Vuo.Foundation.Grouping
import Vuo.Model.Batching
import Vuo.Verification.Replay.Requests
import Vuo.Model.Net
import Vuo.Verification.Net
import Vuo.Model.Shim.Account
import Vuo.Verification.Shim.Accounts
import Vuo.Model.Shim.Reads
import Vuo.Verification.Shim.FailedReads
import Vuo.Model.Shim.Configure
import Vuo.Verification.Shim.Isolation
import Vuo.Verification.Agreement.Runs
import Vuo.Foundation.Budget
import Vuo.Verification.Budget
import Vuo.Verification.Refusals
import Vuo.Model.Shim.Settings
import Vuo.Verification.Shim.HandOver
import Vuo.Foundation.Renaming
import Vuo.Verification.Keys
import Vuo.Foundation.Skew
import Vuo.Verification.Spellings
import Vuo.Verification.Content.Articles
import Vuo.Verification.Mirror.Columns
