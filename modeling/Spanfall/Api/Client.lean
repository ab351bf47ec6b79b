/-
`Client.lean` -- `src/client.rs` and `src/dump.rs`, with the routes they ask:
`--dump` as a program of requests.

What is exchanged is taken to arrive whole: a handler's answer is serialised,
sent with its status line and parsed back. A body is therefore the JSON value
itself, and of the errors of `get_json` only that of the status is left.
-/
import Spanfall.Lib.Json
import Spanfall.Lib.Requests
import Spanfall.Api.Filter
import Spanfall.Ingest.Receiver

set_option autoImplicit false

namespace Spanfall

open Lib Lib.Requests

/-! ## What the routes answer -/

/-- `ReceiverResponse`. -/
structure ReceiverResponse where
  arrivals : ArrivalCounts
  counters : Counters
  recent_rejects : List RejectRecord

/-- `get_receiver`. -/
def Store.get_receiver (self : Store) (receiver : ReceiverState) : ReceiverResponse where
  arrivals := receiver.arrivals
  counters := self.counters
  recent_rejects := receiver.rejects.ring

def TraceSummary.to_json (self : TraceSummary) : Json :=
  .object [("trace_id", .string self.trace_id), ("span_count", .number self.span_count),
    ("duration_nanos", .option (fun d => .number d.toNat) self.duration_nanos),
    ("services", .list .string self.services)]

def TracePayload.to_json (self : TracePayload) : Json :=
  .object [("trace_id", .string self.trace_id), ("generation", .number self.generation.toNat),
    ("string_table", .list .string self.string_table),
    ("name_idx", .list (fun i => .number i.toNat) self.name_idx),
    ("parent_idx", .list (Json.option fun i : ℕ => .number i) self.parent_idx),
    ("start_time_unix_nano", .list (fun n => .number n.toNat) self.start_time_unix_nano),
    ("end_time_unix_nano", .list (fun n => .number n.toNat) self.end_time_unix_nano),
    ("status_message_idx", .list (fun i => .number i.toNat) self.status_message_idx),
    ("status_code", .list (fun c => .number c.toInt) self.status_code),
    ("orphan", .list .bool self.orphan),
    ("unknown_service", .list .bool self.unknown_service),
    ("service_idx", .list (Json.option fun i => .number i.toNat) self.service_idx)]

def ArrivalCounts.to_json (self : ArrivalCounts) : Json :=
  .object [("grpc_v4317", .number self.grpc_v4317),
    ("http_protobuf_v4318", .number self.http_protobuf_v4318),
    ("http_json_v4318", .number self.http_json_v4318)]

def Counters.to_json (self : Counters) : Json :=
  .object [("duplicate_span", .number self.duplicate_span),
    ("attribute_key_cap_hit", .number self.attribute_key_cap_hit),
    ("late_span_after_eviction", .number self.late_span_after_eviction),
    ("evicted_traces", .number self.evicted_traces),
    ("malformed_span", .number self.malformed_span)]

def RejectRecord.to_json (self : RejectRecord) : Json :=
  .object [("reason", .string self.reason), ("at_unix_nano", .number self.at_unix_nano.toNat)]

def ReceiverResponse.to_json (self : ReceiverResponse) : Json :=
  .object [("arrivals", self.arrivals.to_json), ("counters", self.counters.to_json),
    ("recent_rejects", .list RejectRecord.to_json self.recent_rejects)]

/-- The routes that the client asks. -/
inductive Route where
  | traces
  | trace (id : String)
  | receiver
  deriving DecidableEq

def Route.path : Route → String
  | traces => "/api/traces"
  | trace id => "/api/traces/" ++ id
  | receiver => "/api/receiver"

/-- `router`, as far as the client asks. -/
def Store.respond (self : Store) (order : TraceOrder) (receiver : ReceiverState) :
    Route → Option (Response Json)
  | .traces => (self.list_traces order).map fun rows => .ok (.list TraceSummary.to_json rows)
  | .trace id => (self.get_trace id).map (Response.map TracePayload.to_json)
  | .receiver => some (.ok (self.get_receiver receiver).to_json)

/-! ## The client -/

/-- The first line of a response. -/
def Response.status_line {α : Type} : Response α → String
  | .bad_request _ => "HTTP/1.1 400 Bad Request"
  | .not_found => "HTTP/1.1 404 Not Found"
  | .ok _ => "HTTP/1.1 200 OK"

/-- What `get_json` makes of a response. -/
def read_json (path : String) (response : Response Json) : Except String Json :=
  match response with
  | .ok body => .ok body
  | _ => .error (path ++ " returned `" ++ response.status_line ++ "`")

/-- `read_json` looks at the response where the source looks for ` 200 ` in the
status line. -/
theorem status_line_ok {α : Type} (response : Response α) :
    str_contains response.status_line " 200 " = true ↔ ∃ body, response = .ok body := by
  cases response with
  | bad_request body =>
    refine iff_of_false (show ¬str_contains "HTTP/1.1 400 Bad Request" " 200 " = true by decide) ?_
    rintro ⟨_, h⟩
    cases h
  | not_found =>
    refine iff_of_false (show ¬str_contains "HTTP/1.1 404 Not Found" " 200 " = true by decide) ?_
    rintro ⟨_, h⟩
    cases h
  | ok body =>
    exact iff_of_true (show str_contains "HTTP/1.1 200 OK" " 200 " = true by decide) ⟨body, rfl⟩

/-- A function of the client: it asks routes, and `?` leaves it with a text. -/
abbrev Client (α : Type) : Type := ExceptT String (Prog Route (Response Json)) α

/-- `get_json`. -/
def get_json (route : Route) : Client Json := attempt route (read_json route.path)

/-- The error of a response that is no list of rows. -/
def unexpected_shape : String := "unexpected /api/traces response shape"

/-- `traces`. -/
def traces : Client (List Json) := do
  let body ← get_json .traces
  match body.as_array with
  | some rows => return rows
  | none => throw unexpected_shape

/-- The `for` of `fetch_dump`. -/
def fetch_traces : List Json → List Json → Client (List Json)
  | [], full_traces => return full_traces
  | row :: rows, full_traces => do
    match (row.get "trace_id").as_str with
    | none => throw unexpected_shape
    | some trace_id =>
      let trace ← get_json (.trace trace_id)
      fetch_traces rows (full_traces ++ [trace])

/-- The value that `fetch_dump` builds. -/
def document (full_traces : List Json) (receiver : Json) : Json :=
  .object [("traces", .array full_traces), ("receiver", receiver)]

/-- `fetch_dump`. -/
def fetch_dump : Client Json := do
  let rows ← traces
  let full_traces ← fetch_traces rows []
  let receiver ← get_json .receiver
  return document full_traces receiver

end Spanfall
