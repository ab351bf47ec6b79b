/-
`Convert.lean` -- `src/ingest/convert.rs`: from a decoded request to a batch of
spans.

The wire types keep the fields the conversion reads, under their names. The
payloads of the value kinds it drops are left out. `none` is a panic: the one
the source has is behind the `panic-injection` feature, which is an argument
here.
-/
import Spanfall.Store.Writer

set_option autoImplicit false

namespace Spanfall

/-! ## The wire types -/

/-- `any_value::Value`, the source's `PbValue`. -/
inductive PbValue where
  | string_value (s : String)
  | bool_value (b : Bool)
  | int_value (i : Int64)
  | double_value (d : F64)
  | array_value
  | kvlist_value
  | bytes_value
  | string_value_strindex
  deriving DecidableEq

/-- `AnyValue`. -/
structure AnyValue where
  value : Option PbValue
  deriving DecidableEq

/-- `KeyValue`. -/
structure KeyValue where
  key : String
  value : Option AnyValue
  deriving DecidableEq

/-- `Resource`. -/
structure Resource where
  attributes : List KeyValue
  deriving DecidableEq

/-- `Status` of a span on the wire. -/
structure Status where
  message : String
  code : Int32
  deriving DecidableEq

/-- `Span` on the wire, the source's `pb_span`. -/
structure PbSpan where
  trace_id : List UInt8
  span_id : List UInt8
  parent_span_id : List UInt8
  name : String
  start_time_unix_nano : UInt64
  end_time_unix_nano : UInt64
  attributes : List KeyValue
  status : Option Status
  deriving DecidableEq

/-- `ScopeSpans`. -/
structure ScopeSpans where
  spans : List PbSpan
  deriving DecidableEq

/-- `ResourceSpans`. -/
structure ResourceSpans where
  resource : Option Resource
  scope_spans : List ScopeSpans
  deriving DecidableEq

/-- `ExportTraceServiceRequest`. -/
structure ExportTraceServiceRequest where
  resource_spans : List ResourceSpans
  deriving DecidableEq

/-- `RejectReason`. -/
inductive RejectReason where
  | empty_payload
  | decode_error (message : String)
  deriving DecidableEq

/-! ## The parts of a span -/

/-- `trace_id_of`. -/
def trace_id_of (bytes : List UInt8) : Option TraceId := (try_from 16 bytes).map TraceId.mk

/-- `span_id_of`. -/
def span_id_of (bytes : List UInt8) : Option SpanId := (try_from 8 bytes).map SpanId.mk

/-- `attr_of`. -/
def attr_of (kv : KeyValue) : Option (String × AttrValue) := do
  let any ← kv.value
  let value ← any.value
  let value ← match value with
    | .string_value s => some (AttrValue.str s)
    | .int_value i => some (.int i)
    | .double_value d => some (.double d)
    | .bool_value b => some (.bool b)
    | .array_value => none
    | .kvlist_value => none
    | .bytes_value => none
    | .string_value_strindex => none
  return (kv.key, value)

/-- The closure of `service_name_of`: a pair under another key, without a value
or with a value that is no string is passed over. -/
def service_name_attr (kv : KeyValue) : Option String := do
  if kv.key ≠ "service.name" then none
  else
    let any ← kv.value
    let value ← any.value
    match value with
    | .string_value s => some s
    | _ => none

/-- `service_name_of`. -/
def service_name_of (resource_spans : ResourceSpans) : Option String := do
  let resource ← resource_spans.resource
  resource.attributes.findSome? service_name_attr

/-! ## The conversion -/

/-- The variables of the loops. -/
structure Converted where
  spans : List (TraceId × NewSpan)
  malformed_span_count : ℕ
  saw_any_span : Bool

/-- The name that panics under `panic-injection`. -/
def PANIC_INJECTION_NAME : String := "__spanfall_panic_injection__"

/-- The body of the innermost loop. -/
def convert_span (panic_injection : Bool) (service_name : Option String) (acc : Converted)
    (pb_span : PbSpan) : Option Converted :=
  let acc := { acc with saw_any_span := true }
  if panic_injection = true ∧ pb_span.name = PANIC_INJECTION_NAME then none
  else
    match trace_id_of pb_span.trace_id with
    | none => some { acc with malformed_span_count := acc.malformed_span_count + 1 }
    | some trace_id =>
      match span_id_of pb_span.span_id with
      | none => some { acc with malformed_span_count := acc.malformed_span_count + 1 }
      | some span_id =>
        let new_span : NewSpan :=
          { span_id
            parent_span_id := span_id_of pb_span.parent_span_id
            name := pb_span.name
            start_time_unix_nano := pb_span.start_time_unix_nano
            end_time_unix_nano := pb_span.end_time_unix_nano
            status_message := (pb_span.status.map Status.message).getD ""
            status_code := (pb_span.status.map Status.code).getD 0
            unknown_service := service_name.isNone
            service_name
            attributes := pb_span.attributes.filterMap attr_of }
        some { acc with spans := acc.spans ++ [(trace_id, new_span)] }

/-- The spans of one resource. -/
def convert_resource (panic_injection : Bool) (acc : Converted) (resource_spans : ResourceSpans) :
    Option Converted :=
  let service_name := service_name_of resource_spans
  resource_spans.scope_spans.foldlM (fun acc scope_spans =>
    scope_spans.spans.foldlM (convert_span panic_injection service_name) acc) acc

/-- `convert`. -/
def convert (panic_injection : Bool) (request : ExportTraceServiceRequest) :
    Option (Except RejectReason SpanBatch) := do
  let acc ← request.resource_spans.foldlM (convert_resource panic_injection)
    { spans := [], malformed_span_count := 0, saw_any_span := false }
  if acc.saw_any_span then
    return .ok
      { partial_batch := decide (acc.malformed_span_count > 0)
        malformed_span_count := acc.malformed_span_count
        spans := acc.spans }
  else return .error .empty_payload

end Spanfall
