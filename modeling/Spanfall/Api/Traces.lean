/-
`Traces.lean` -- `src/api/traces.rs`: the list of traces and one trace's
columns.

A handler takes the read lock once, so what it answers is a function of one
store. `none` is a panic. The string table is interned row by row in the
handler's order: name, status message, service.
-/
import Mathlib.Data.String.Basic
import Mathlib.Data.Finset.Sort
import Spanfall.Store.Store

set_option autoImplicit false

namespace Spanfall

open Lib.HashMap Lib.Vec

/-- What a handler answers. -/
inductive Response (α : Type) where
  | bad_request (body : String)
  | not_found
  | ok (body : α)
  deriving DecidableEq

def Response.map {α β : Type} (f : α → β) : Response α → Response β
  | bad_request body => .bad_request body
  | not_found => .not_found
  | ok body => .ok (f body)

/-- The body of every `400` of the Read API. -/
def bad_trace_id : String := "trace id must be 32 hex characters"

/-- `TraceSummary`. -/
structure TraceSummary where
  trace_id : String
  span_count : ℕ
  duration_nanos : Option UInt64
  services : List String
  deriving DecidableEq

/-- `TracePayload`. -/
structure TracePayload where
  trace_id : String
  generation : UInt32
  string_table : List String
  name_idx : List UInt32
  parent_idx : List (Option ℕ)
  start_time_unix_nano : List UInt64
  end_time_unix_nano : List UInt64
  status_message_idx : List UInt32
  status_code : List Int32
  orphan : List Bool
  unknown_service : List Bool
  service_idx : List (Option UInt32)
  deriving DecidableEq

/-- `StringTable`. -/
structure StringTable where
  strings : List String
  index : FxHashMap String UInt32

namespace StringTable

/-- `StringTable::default`. -/
def default : StringTable := { strings := [], index := ∅ }

/-- `StringTable::intern`: the position of `s`, adding it if it is new. -/
def intern (self : StringTable) (s : String) : UInt32 × StringTable :=
  match self.index.lookup s with
  | some id => (id, self)
  | none =>
    let id := UInt32.ofNat self.strings.length
    (id, { strings := self.strings ++ [s], index := self.index.insert s id })

end StringTable

namespace Store

/-- The services one trace's summary lists: a `BTreeSet` keeps them sorted and
without repetition. -/
def trace_services (self : Store) (trace : Trace) : Option (List String) := do
  let names ← (List.range trace.span_count).mapM fun idx => do
    let service_id ← trace.service_name_id idx
    service_id.mapM self.service_name
  return (names.filterMap id).toFinset.sort (· ≤ ·)

/-- One entry of `list_traces`. -/
def summarize (self : Store) (trace_id : TraceId) (trace : Trace) : Option TraceSummary := do
  let services ← self.trace_services trace
  return { trace_id := trace_id.to_hex, span_count := trace.span_count,
           duration_nanos := trace.duration_nanos, services }

/-- `list_traces`. -/
def list_traces (self : Store) (order : TraceOrder) : Option (List TraceSummary) :=
  (order.iter self.traces).mapM fun e => self.summarize e.1 e.2

/-- One turn of `get_trace`'s loop. -/
def push_row (self : Store) (trace : Trace) (acc : TracePayload × StringTable) (idx : ℕ) :
    Option (TracePayload × StringTable) := do
  let (payload, table) := acc
  let name ← trace.name idx
  let (name_idx, table) := table.intern name
  let parent_idx ← trace.parent_idx idx
  let start_time_unix_nano ← trace.start_time_unix_nano idx
  let end_time_unix_nano ← trace.end_time_unix_nano idx
  let status_message ← trace.status_message idx
  let (status_message_idx, table) := table.intern status_message
  let status_code ← trace.status_code idx
  let orphan ← trace.is_orphan idx
  let unknown_service ← trace.unknown_service idx
  let service_name_id ← trace.service_name_id idx
  let service ← service_name_id.mapM self.service_name
  let (service_idx, table) := match service with
    | none => (none, table)
    | some name =>
      let (id, table) := table.intern name
      (some id, table)
  return ({ payload with
      name_idx := payload.name_idx ++ [name_idx]
      parent_idx := payload.parent_idx ++ [parent_idx]
      start_time_unix_nano := payload.start_time_unix_nano ++ [start_time_unix_nano]
      end_time_unix_nano := payload.end_time_unix_nano ++ [end_time_unix_nano]
      status_message_idx := payload.status_message_idx ++ [status_message_idx]
      status_code := payload.status_code ++ [status_code]
      orphan := payload.orphan ++ [orphan]
      unknown_service := payload.unknown_service ++ [unknown_service]
      service_idx := payload.service_idx ++ [service_idx] }, table)

/-- The columns before the loop. -/
def empty_payload (trace : Trace) : TracePayload where
  trace_id := trace.trace_id.to_hex
  generation := trace.generation
  string_table := []
  name_idx := []
  parent_idx := []
  start_time_unix_nano := []
  end_time_unix_nano := []
  status_message_idx := []
  status_code := []
  orphan := []
  unknown_service := []
  service_idx := []

/-- The payload of one trace. -/
def trace_payload (self : Store) (trace : Trace) : Option TracePayload := do
  let (payload, table) ← (List.range trace.span_count).foldlM (self.push_row trace)
    (empty_payload trace, StringTable.default)
  return { payload with string_table := table.strings }

/-- `get_trace`. -/
def get_trace (self : Store) (id : String) : Option (Response TracePayload) :=
  match TraceId.from_hex id with
  | none => some (.bad_request bad_trace_id)
  | some trace_id =>
    match self.trace trace_id with
    | none => some .not_found
    | some trace => (self.trace_payload trace).map .ok

theorem summarize_trace_id {s : Store} {id : TraceId} {t : Trace} {e : TraceSummary}
    (h : s.summarize id t = some e) : e.trace_id = id.to_hex := by
  rw [summarize] at h
  obtain ⟨_, _, h⟩ := Option.bind_eq_some_iff.mp h
  rw [← Option.some.inj h]

/-- The list names every resident trace. -/
theorem list_traces_ids {s : Store} {order : TraceOrder} {rows : List TraceSummary}
    (h : s.list_traces order = some rows) :
    rows.map (·.trace_id) = (order.iter s.traces).map fun e => e.1.to_hex :=
  map_eq_of_mapM h fun _ _ he => summarize_trace_id he

/-- `get_trace` of a resident trace. -/
theorem get_trace_of_trace {s : Store} {text : String} {id : TraceId} {t : Trace}
    {payload : TracePayload} (hid : TraceId.from_hex text = some id) (ht : s.trace id = some t)
    (h : s.trace_payload t = some payload) : s.get_trace text = some (.ok payload) := by
  rw [get_trace, hid]
  dsimp only
  rw [ht]
  dsimp only
  rw [h]
  rfl

end Store

end Spanfall
