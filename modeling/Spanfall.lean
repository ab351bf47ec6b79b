import Spanfall.Lib.Vec
import Spanfall.Lib.Runs
import Spanfall.Lib.F64
import Spanfall.Lib.Rounding
import Spanfall.Lib.Csr
import Spanfall.Lib.Ring
import Spanfall.Lib.Ascent
import Spanfall.Lib.Utf8
import Spanfall.Lib.Http
import Spanfall.Lib.Json
import Spanfall.Lib.Requests
import Spanfall.Lib.Serial
import Spanfall.Lib.LastWrite
import Spanfall.Lib.HashMap
import Spanfall.Store.Types
import Spanfall.Store.Hex
import Spanfall.Store.Interner
import Spanfall.Store.Refusals
import Spanfall.Store.Trace
import Spanfall.Store.TraceLinks
import Spanfall.Store.TraceColumns
import Spanfall.Store.Parents
import Spanfall.Store.Store
import Spanfall.Store.Charge
import Spanfall.Store.Eviction
import Spanfall.Store.Run
import Spanfall.Store.Refine
import Spanfall.Store.Generation
import Spanfall.Store.Writer
import Spanfall.Api.Traces
import Spanfall.Api.Attributes
import Spanfall.Api.Filter
import Spanfall.Api.View
import Spanfall.Api.Tokens
import Spanfall.Api.Total
import Spanfall.Api.Quoting
import Spanfall.Api.Juxtapose
import Spanfall.Api.Isolation
import Spanfall.Api.Stale
import Spanfall.Store.Wrap
import Spanfall.Store.Retry
import Spanfall.Store.Ledger
import Spanfall.Store.Forest
import Spanfall.Store.Retention
import Spanfall.Store.Demo
import Spanfall.Store.Bookkeeping
import Spanfall.Store.CapHits
import Spanfall.Store.Bare
import Spanfall.Store.Victims
import Spanfall.Store.Memory
import Spanfall.Store.Renumber
import Spanfall.Api.Events
import Spanfall.Ingest.Convert
import Spanfall.Ingest.Wire
import Spanfall.Ingest.BrokenLinks
import Spanfall.Ingest.Receiver
import Spanfall.Ingest.Accept
import Spanfall.Ingest.Accounting
import Spanfall.Ingest.Order
import Spanfall.Ingest.Turns
import Spanfall.Ingest.Progress
import Spanfall.Ingest.Export
import Spanfall.Ingest.Answers
import Spanfall.Ingest.Rejects
import Spanfall.Ingest.Sniff
import Spanfall.Ingest.Routing
import Spanfall.Api.Client
import Spanfall.Api.Transport
import Spanfall.Api.Reorder
import Spanfall.Api.Discipline
import Spanfall.Api.Matching
import Spanfall.Api.Complement
import Spanfall.Api.Numeric
import Spanfall.Api.Splitting
import Spanfall.Api.Payload
import Spanfall.Api.Dump
import Spanfall.Api.Rows
import Spanfall.Api.Server
import Spanfall.Api.Receiver
import Spanfall.Api.Delivery
import Spanfall.Api.Overview
import Spanfall.Api.Apart
import Spanfall.Api.Growth
