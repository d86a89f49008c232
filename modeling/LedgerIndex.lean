import LedgerIndex.App.Arguments
import LedgerIndex.App.DatabaseUrl
import LedgerIndex.App.Endpoints
import LedgerIndex.App.Percent
import LedgerIndex.App.Program
import LedgerIndex.App.Settings
import LedgerIndex.App.Store
import LedgerIndex.App.Target
import LedgerIndex.App.Texts
import LedgerIndex.Batch
import LedgerIndex.Cursor
import LedgerIndex.Decimal.Digits
import LedgerIndex.Decimal.Double
import LedgerIndex.Decimal.Shortest
import LedgerIndex.Decimal.Word
import LedgerIndex.Error
import LedgerIndex.Json.Basic
import LedgerIndex.Json.Fault
import LedgerIndex.Json.Reader
import LedgerIndex.Json.Reading
import LedgerIndex.Json.Record
import LedgerIndex.Json.Text
import LedgerIndex.Ledger.EventType
import LedgerIndex.Ledger.Payload
import LedgerIndex.Ledger.Transaction
import LedgerIndex.Main
import LedgerIndex.Node.Calls
import LedgerIndex.Node.Client
import LedgerIndex.Node.Message
import LedgerIndex.Node.Page
import LedgerIndex.Node.Retry
import LedgerIndex.Node.Transport
import LedgerIndex.Progress
import LedgerIndex.Proofs.Batch.Pages
import LedgerIndex.Proofs.Sql.Mirror
import LedgerIndex.Proofs.Sql.Refinement
import LedgerIndex.Proofs.Sql.Statements
import LedgerIndex.Proofs.Store.Commits
import LedgerIndex.Proofs.Store.Operations
import LedgerIndex.Proofs.Store.Reconcile
import LedgerIndex.Proofs.Store.Rows
import LedgerIndex.Proofs.Store.Standing
import LedgerIndex.Proofs.Sync.ExactlyOnce
import LedgerIndex.Proofs.Sync.Ledgers
import LedgerIndex.Proofs.Sync.PageSize
import LedgerIndex.Proofs.Sync.Round
import LedgerIndex.Proofs.Table.Latest
import LedgerIndex.Proofs.Table.Plan
import LedgerIndex.Scripted.HttpServer
import LedgerIndex.Scripted.Ledger
import LedgerIndex.Scripted.SqlServer
import LedgerIndex.Sql.FieldPath
import LedgerIndex.Sql.ReadOnly
import LedgerIndex.Sql.Remote
import LedgerIndex.Sql.Statement
import LedgerIndex.Sql.Tables
import LedgerIndex.Sql.Text
import LedgerIndex.Store.Basic
import LedgerIndex.Store.Memory
import LedgerIndex.Store.Unreliable
import LedgerIndex.Subscription.Filter
import LedgerIndex.Subscription.Registry
import LedgerIndex.Subscription.Request
import LedgerIndex.Subscription.Server
import LedgerIndex.Subscription.Session
import LedgerIndex.Sync.Config
import LedgerIndex.Sync.Machine
import LedgerIndex.Sync.Run
import LedgerIndex.Sync.Status
import LedgerIndex.Table.Change
import LedgerIndex.Table.Key
import LedgerIndex.Table.Plan
import LedgerIndex.Yaml.Basic
import LedgerIndex.Yaml.Reader
import LedgerIndex.Yaml.Scalar
import LedgerIndex.Yaml.Tag
import LedgerIndex.Yaml.Take
import LedgerIndex.Yaml.Text
import LedgerIndex.Yaml.Token
import LedgerIndex.Proofs.Store.Replay
import LedgerIndex.Proofs.Subscription.LastTold
import LedgerIndex.Proofs.Subscription.Delivery
import LedgerIndex.Proofs.Store.Atomic
import LedgerIndex.Proofs.Sync.Cursors
import LedgerIndex.Proofs.Store.EitherOrder
import LedgerIndex.Proofs.Store.Times
import LedgerIndex.Proofs.Subscription.Isolation
import LedgerIndex.Proofs.Sync.Dealings
import LedgerIndex.Proofs.Sync.Audit
import LedgerIndex.Proofs.Sync.Telling
import LedgerIndex.Proofs.Sync.Steering
import LedgerIndex.Proofs.Store.History
import LedgerIndex.Proofs.Sql.UniqueKeys
import LedgerIndex.Proofs.Sql.SignedCheckpoints
import LedgerIndex.Proofs.Sql.FieldLookup
import LedgerIndex.Proofs.Subscription.Membership
import LedgerIndex.Proofs.Sync.Journal
import LedgerIndex.Proofs.Sync.Ending
import LedgerIndex.Proofs.Sync.States
import LedgerIndex.Proofs.Sync.Account
import LedgerIndex.Proofs.Json.Records
import LedgerIndex.Proofs.Subscription.Sessions
import LedgerIndex.Proofs.Subscription.Wire
import LedgerIndex.Proofs.Sync.Marker
import LedgerIndex.Proofs.Node.Wire
import LedgerIndex.Proofs.Store.Shuffle
import LedgerIndex.Proofs.Node.Retrying
import LedgerIndex.Proofs.Json.Fields
import LedgerIndex.Proofs.Traversal
import LedgerIndex.Proofs.Node.WholePages
import LedgerIndex.Proofs.Store.Paging
import LedgerIndex.Proofs.Sql.Paging
import LedgerIndex.Proofs.Batch.Sorting
import LedgerIndex.Proofs.Batch.Outcomes
import LedgerIndex.Proofs.Sql.Conversation
import LedgerIndex.Proofs.Sql.Sending
import LedgerIndex.Proofs.Json.KeyTexts
import LedgerIndex.Proofs.Ledger.TypeFilters
import LedgerIndex.Proofs.Node.CallLog
import LedgerIndex.Proofs.Sync.Resuming
import LedgerIndex.Proofs.Sync.Sampling
import LedgerIndex.Proofs.Sync.Settings
import LedgerIndex.Proofs.Table.Winners
import LedgerIndex.Proofs.Store.Numbering
import LedgerIndex.Proofs.Decimal.Positional
import LedgerIndex.Proofs.Ledger.Addresses
import LedgerIndex.Proofs.Decimal.Words
import LedgerIndex.Proofs.Node.CheckpointNumbers
