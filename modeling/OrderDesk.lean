import OrderDesk.Broker.Consumer
import OrderDesk.Config
import OrderDesk.Desk.Crowd
import OrderDesk.Order.Sample
import OrderDesk.Proofs.Api.Answers
import OrderDesk.Proofs.Api.Discretion
import OrderDesk.Proofs.Api.Parameters
import OrderDesk.Proofs.Api.Targets
import OrderDesk.Proofs.Desk.Coherence
import OrderDesk.Proofs.Desk.Contents
import OrderDesk.Proofs.Desk.Crowds
import OrderDesk.Proofs.Desk.Deeds
import OrderDesk.Proofs.Desk.Discretion
import OrderDesk.Proofs.Desk.Frames
import OrderDesk.Proofs.Desk.Hits
import OrderDesk.Proofs.Desk.Lookups
import OrderDesk.Proofs.Desk.Pages
import OrderDesk.Proofs.Desk.Paging
import OrderDesk.Proofs.Desk.Sessions
import OrderDesk.Proofs.Desk.Sharing
import OrderDesk.Proofs.Desk.Walks
import OrderDesk.Proofs.Ingest.Accounts
import OrderDesk.Proofs.Ingest.Admission
import OrderDesk.Proofs.Ingest.Arrivals
import OrderDesk.Proofs.Ingest.Backoff
import OrderDesk.Proofs.Ingest.Chronicle
import OrderDesk.Proofs.Ingest.Course
import OrderDesk.Proofs.Ingest.Deeds
import OrderDesk.Proofs.Ingest.Discretion
import OrderDesk.Proofs.Ingest.Fragments
import OrderDesk.Proofs.Ingest.Interruption
import OrderDesk.Proofs.Ingest.Lifetimes
import OrderDesk.Proofs.Ingest.Memory
import OrderDesk.Proofs.Ingest.Passages
import OrderDesk.Proofs.Ingest.Progress
import OrderDesk.Proofs.Ingest.Redelivery
import OrderDesk.Proofs.Ingest.Restart
import OrderDesk.Proofs.Ingest.Retries
import OrderDesk.Proofs.Ingest.Rounds
import OrderDesk.Proofs.Ingest.Schedule
import OrderDesk.Proofs.Log.Keys
import OrderDesk.Proofs.Order.Pages
import OrderDesk.Proofs.Order.Shelves
import OrderDesk.Proofs.Order.Validity
import OrderDesk.Proofs.Order.Violations
import OrderDesk.Proofs.Service.CachedPages
import OrderDesk.Proofs.Service.Discretion
import OrderDesk.Proofs.Service.Frames
import OrderDesk.Proofs.Service.LatestVersions
import OrderDesk.Proofs.Service.Lookups
import OrderDesk.Proofs.Service.Parameters
import OrderDesk.Proofs.Service.ServedOrders
import OrderDesk.Proofs.Service.UniformFailures
import OrderDesk.Proofs.Service.ValidOrders
import OrderDesk.Proofs.Service.Walks
import OrderDesk.Proofs.Tables.Exchanges
import OrderDesk.Proofs.Tables.Failures
import OrderDesk.Proofs.Tables.Heads
import OrderDesk.Proofs.Tables.Holdings
import OrderDesk.Proofs.Tables.Loads
import OrderDesk.Proofs.Tables.Poison
import OrderDesk.Proofs.Tables.ReadTransactions
import OrderDesk.Proofs.Tables.Reading
import OrderDesk.Proofs.Tables.Replacement
import OrderDesk.Proofs.Tables.Runs
import OrderDesk.Proofs.Tables.Transactions
import OrderDesk.Proofs.Tables.Upserts
import OrderDesk.Proofs.Tables.Writes
import OrderDesk.Proofs.Text.Decimal
import OrderDesk.Proofs.Text.Forms
import OrderDesk.Proofs.Text.Patterns
import OrderDesk.Proofs.Text.Utf8
import OrderDesk.Proofs.Time.Rfc3339
import OrderDesk.Proofs.Wire.Arrays
import OrderDesk.Proofs.Wire.Cuts
import OrderDesk.Proofs.Wire.Evolution
import OrderDesk.Proofs.Wire.Extents
import OrderDesk.Proofs.Wire.Grammar
import OrderDesk.Proofs.Wire.Objects
import OrderDesk.Proofs.Wire.Orders
import OrderDesk.Proofs.Wire.Records
import OrderDesk.Proofs.Wire.Spelling
import OrderDesk.Proofs.Wire.Strictness
import OrderDesk.Proofs.Wire.Strings
import OrderDesk.Proofs.Wire.Truncation
import OrderDesk.Proofs.Wire.Values
import OrderDesk.Service.Basic
import OrderDesk.Tables.Connection
import OrderDesk.Tables.Database
import OrderDesk.Tables.Limits
import OrderDesk.Tables.Read
import OrderDesk.Tables.Reading
import OrderDesk.Tables.Write
import OrderDesk.Time.Calendar
