/-
`Wire.lean` -- what the conversion keeps of a request.

A request is three levels of nesting around its spans. Read in wire order they
are one list, each span beside the resource it came under ([`wire_spans`]), and
the three loops of `convert` are one loop over it ([`convert_eq`]). What the
result should be is said without the loops and without the conversion's own
helpers: which spans are well formed, which of a span's attributes are scalars,
and which names a resource gives its service ([`Carries`]).
-/
import Spanfall.Ingest.Convert

set_option autoImplicit false

namespace Spanfall

open Lib.Vec

/-- The spans of a request in wire order, each with its resource. -/
def wire_spans (request : ExportTraceServiceRequest) : List (ResourceSpans × PbSpan) :=
  request.resource_spans.flatMap fun resource_spans =>
    resource_spans.scope_spans.flatMap fun scope_spans =>
      scope_spans.spans.map fun pb_span => (resource_spans, pb_span)

/-- The ids of the span have the lengths the protocol fixes. -/
def PbSpan.WellFormed (pb_span : PbSpan) : Prop :=
  pb_span.trace_id.length = 16 ∧ pb_span.span_id.length = 8

instance (pb_span : PbSpan) : Decidable pb_span.WellFormed :=
  inferInstanceAs (Decidable (_ ∧ _))

/-- The attribute value that a pair stands for, if it is a scalar. -/
def KeyValue.scalar (kv : KeyValue) : Option AttrValue :=
  match kv.value.bind (·.value) with
  | some (.string_value s) => some (.str s)
  | some (.int_value i) => some (.int i)
  | some (.double_value d) => some (.double d)
  | some (.bool_value b) => some (.bool b)
  | _ => none

/-- The string-valued `service.name`s of a resource, in order. -/
def ResourceSpans.service_names (resource_spans : ResourceSpans) : List String :=
  ((resource_spans.resource.map (·.attributes)).getD []).filterMap fun kv =>
    match kv.value.bind (·.value) with
    | some (.string_value s) => if kv.key = "service.name" then some s else none
    | _ => none

/-- `p` is the wire span `w`, with the service of its own resource. -/
structure Carries (w : ResourceSpans × PbSpan) (p : TraceId × NewSpan) : Prop where
  trace_id : p.1.bytes.toList = w.2.trace_id
  span_id : p.2.span_id.bytes.toList = w.2.span_id
  name : p.2.name = w.2.name
  start_time : p.2.start_time_unix_nano = w.2.start_time_unix_nano
  end_time : p.2.end_time_unix_nano = w.2.end_time_unix_nano
  status : (p.2.status_message, p.2.status_code)
    = (w.2.status.map fun status => (status.message, status.code)).getD ("", 0)
  attributes : p.2.attributes
    = w.2.attributes.filterMap fun kv => kv.scalar.map fun value => (kv.key, value)
  service_name : p.2.service_name = w.1.service_names.head?
  unknown_service : p.2.unknown_service = true ↔ w.1.service_names = []

/-! ## The parts -/

theorem attr_of_eq (kv : KeyValue) :
    attr_of kv = kv.scalar.map fun value => (kv.key, value) := by
  obtain ⟨key, value⟩ := kv
  rcases value with _ | ⟨_ | value⟩
  · rfl
  · rfl
  · cases value with
    | string_value s => rfl
    | bool_value b => rfl
    | int_value i => rfl
    | double_value d => rfl
    | array_value => rfl
    | kvlist_value => rfl
    | bytes_value => rfl
    | string_value_strindex => rfl

/-- A pair without a string under `service.name` is passed over; the search
goes on behind it. -/
theorem service_name_of_eq (resource_spans : ResourceSpans) :
    service_name_of resource_spans = resource_spans.service_names.head? := by
  unfold service_name_of ResourceSpans.service_names
  cases resource_spans.resource with
  | none => rfl
  | some resource =>
    have hattr : ∀ kv : KeyValue, service_name_attr kv
        = match kv.value.bind (·.value) with
          | some (.string_value s) => if kv.key = "service.name" then some s else none
          | _ => none := by
      rintro ⟨key, value⟩
      unfold service_name_attr
      by_cases hkey : key = "service.name"
      · rcases value with _ | ⟨_ | value⟩ <;> simp [hkey]
        cases value <;> rfl
      · rcases value with _ | ⟨_ | value⟩ <;> simp [hkey]
        cases value <;> rfl
    rw [Option.map_some, Option.getD_some, List.head?_filterMap]
    exact congrArg (resource.attributes.findSome? ·) (funext hattr)

/-! ## One loop -/

/-- What `convert` makes of one wire span. -/
def converted_span (w : ResourceSpans × PbSpan) : Option (TraceId × NewSpan) := do
  let trace_id ← trace_id_of w.2.trace_id
  let span_id ← span_id_of w.2.span_id
  return (trace_id,
    { span_id
      parent_span_id := span_id_of w.2.parent_span_id
      name := w.2.name
      start_time_unix_nano := w.2.start_time_unix_nano
      end_time_unix_nano := w.2.end_time_unix_nano
      status_message := (w.2.status.map Status.message).getD ""
      status_code := (w.2.status.map Status.code).getD 0
      unknown_service := (service_name_of w.1).isNone
      service_name := service_name_of w.1
      attributes := w.2.attributes.filterMap attr_of })

/-- The variables of the loops after one more wire span. -/
def Converted.add (acc : Converted) (w : ResourceSpans × PbSpan) : Converted where
  spans := acc.spans ++ (converted_span w).toList
  malformed_span_count := acc.malformed_span_count + (converted_span w).isNone.toNat
  saw_any_span := true

/-- Without injected panics the body of the loop does not panic. -/
theorem convert_span_eq (resource_spans : ResourceSpans) (acc : Converted) (pb_span : PbSpan) :
    convert_span false (service_name_of resource_spans) acc pb_span
      = some (acc.add (resource_spans, pb_span)) := by
  rw [convert_span, if_neg (by simp)]
  unfold Converted.add converted_span
  dsimp only
  cases trace_id_of pb_span.trace_id with
  | none => simp
  | some trace_id =>
    cases span_id_of pb_span.span_id with
    | none => simp
    | some span_id => simp

theorem convert_fold (request : ExportTraceServiceRequest) (acc : Converted) :
    request.resource_spans.foldlM (convert_resource false) acc
      = some ((wire_spans request).foldl Converted.add acc) := by
  have hscope : ∀ resource_spans (acc : Converted) (scope_spans : ScopeSpans),
      scope_spans.spans.foldlM (convert_span false (service_name_of resource_spans)) acc
        = some ((scope_spans.spans.map fun pb_span => (resource_spans, pb_span)).foldl
            Converted.add acc) := by
    intro resource_spans acc scope_spans
    rw [List.foldl_map]
    exact foldlM_of_forall fun acc pb_span => convert_span_eq resource_spans acc pb_span
  have hresource : ∀ (acc : Converted) resource_spans,
      convert_resource false acc resource_spans
        = some ((resource_spans.scope_spans.flatMap fun scope_spans =>
            scope_spans.spans.map fun pb_span => (resource_spans, pb_span)).foldl
              Converted.add acc) := by
    intro acc resource_spans
    rw [List.foldl_flatMap]
    exact foldlM_of_forall fun acc scope_spans => hscope resource_spans acc scope_spans
  rw [wire_spans, List.foldl_flatMap]
  exact foldlM_of_forall hresource

/-- The loop over the wire spans, from its end. -/
theorem add_fold (ws : List (ResourceSpans × PbSpan)) (acc : Converted) :
    ws.foldl Converted.add acc =
      { spans := acc.spans ++ ws.filterMap converted_span
        malformed_span_count := acc.malformed_span_count
          + (ws.countP fun w => (converted_span w).isNone)
        saw_any_span := acc.saw_any_span || !ws.isEmpty } := by
  induction ws generalizing acc with
  | nil => simp
  | cons w ws ih =>
    rw [List.foldl_cons, ih]
    cases hw : converted_span w with
    | none => simp [Converted.add, hw, Nat.add_comm, Nat.add_assoc]
    | some p => simp [Converted.add, hw]

/-- A conversion that does not panic is the same without the injected panic. -/
theorem convert_uninjected {panic_injection : Bool} {request : ExportTraceServiceRequest}
    {result : Except RejectReason SpanBatch} (h : convert panic_injection request = some result) :
    convert false request = some result := by
  have hspan : ∀ {service_name acc pb_span acc'},
      convert_span panic_injection service_name acc pb_span = some acc' →
      convert_span false service_name acc pb_span = some acc' := by
    intro service_name acc pb_span acc' h
    unfold convert_span at h ⊢
    dsimp only at h ⊢
    rw [if_neg (by simp)]
    by_cases hpanic : panic_injection = true ∧ pb_span.name = PANIC_INJECTION_NAME
    · rw [if_pos hpanic] at h
      cases h
    · rwa [if_neg hpanic] at h
  rw [convert] at h ⊢
  obtain ⟨acc, hacc, h⟩ := Option.bind_eq_some_iff.mp h
  refine Option.bind_eq_some_iff.mpr ⟨acc, ?_, h⟩
  refine foldlM_of_imp (fun acc resource_spans acc' hresource => ?_) hacc
  refine foldlM_of_imp (fun acc scope_spans acc' hscope => ?_) hresource
  exact foldlM_of_imp (fun acc pb_span acc' => hspan) hscope

/-- **`convert`, without its loops.** -/
theorem convert_eq (request : ExportTraceServiceRequest) :
    convert false request = some (if wire_spans request = [] then .error .empty_payload
      else .ok
        { partial_batch := decide
            (0 < (wire_spans request).countP fun w => (converted_span w).isNone)
          malformed_span_count := (wire_spans request).countP fun w => (converted_span w).isNone
          spans := (wire_spans request).filterMap converted_span }) := by
  rw [convert, convert_fold, add_fold]
  cases hw : wire_spans request with
  | nil => rfl
  | cons w ws => simp

/-! ## What is kept -/

/-- A wire span is converted exactly when its ids have their lengths. -/
theorem converted_span_isSome (w : ResourceSpans × PbSpan) :
    (converted_span w).isSome ↔ w.2.WellFormed := by
  have htrace : (trace_id_of w.2.trace_id).isSome ↔ w.2.trace_id.length = 16 := by
    rw [trace_id_of, Option.isSome_map, try_from_isSome]
  have hspan : (span_id_of w.2.span_id).isSome ↔ w.2.span_id.length = 8 := by
    rw [span_id_of, Option.isSome_map, try_from_isSome]
  rw [PbSpan.WellFormed, ← htrace, ← hspan, converted_span]
  cases trace_id_of w.2.trace_id with
  | none => simp
  | some trace_id =>
    cases span_id_of w.2.span_id with
    | none => simp
    | some span_id => simp

/-- A converted span carries its wire span. -/
theorem converted_span_carries {w : ResourceSpans × PbSpan} {p : TraceId × NewSpan}
    (h : converted_span w = some p) : Carries w p := by
  rw [converted_span] at h
  obtain ⟨trace_id, htrace, h⟩ := Option.bind_eq_some_iff.mp h
  obtain ⟨span_id, hspan, h⟩ := Option.bind_eq_some_iff.mp h
  obtain ⟨tbytes, htbytes, rfl⟩ := Option.map_eq_some_iff.mp htrace
  obtain ⟨sbytes, hsbytes, rfl⟩ := Option.map_eq_some_iff.mp hspan
  obtain rfl := Option.some.inj h
  refine { trace_id := try_from_eq_some.mp htbytes, span_id := try_from_eq_some.mp hsbytes,
           name := rfl, start_time := rfl, end_time := rfl, status := ?_, attributes := ?_,
           service_name := service_name_of_eq w.1, unknown_service := ?_ }
  · cases w.2.status with
    | none => rfl
    | some status => rfl
  · exact List.filterMap_congr fun kv _ => attr_of_eq kv
  · dsimp only
    rw [service_name_of_eq, Option.isNone_iff_eq_none, List.head?_eq_none_iff]

/-- Of a list of wire spans the well-formed ones are kept, in order and once
each; the others are counted. -/
theorem kept_and_counted (ws : List (ResourceSpans × PbSpan)) :
    List.Forall₂ Carries (ws.filter fun w => decide w.2.WellFormed) (ws.filterMap converted_span)
      ∧ (ws.filterMap converted_span).length + (ws.countP fun w => (converted_span w).isNone)
        = ws.length := by
  induction ws with
  | nil => exact ⟨List.Forall₂.nil, rfl⟩
  | cons w ws ih =>
    obtain ⟨hkept, hcount⟩ := ih
    have hgood := converted_span_isSome w
    cases hw : converted_span w with
    | none =>
      rw [hw] at hgood
      rw [List.filter_cons_of_neg (by simpa using hgood), List.filterMap_cons_none hw,
        List.countP_cons_of_pos (by rw [hw]; rfl), List.length_cons]
      exact ⟨hkept, by omega⟩
    | some p =>
      rw [hw] at hgood
      rw [List.filter_cons_of_pos (by simpa using hgood), List.filterMap_cons_some hw,
        List.countP_cons_of_neg (by rw [hw]; simp), List.length_cons, List.length_cons]
      exact ⟨List.Forall₂.cons (converted_span_carries hw) hkept, by omega⟩

/-- **The conversion keeps every well-formed span and counts every other one.**
It refuses a request without spans and no other. -/
theorem convert_keeps (request : ExportTraceServiceRequest) :
    ∃ result, convert false request = some result
      ∧ (result = .error .empty_payload ↔ wire_spans request = [])
      ∧ (wire_spans request ≠ [] → ∃ batch, result = .ok batch
        ∧ List.Forall₂ Carries ((wire_spans request).filter fun w => decide w.2.WellFormed)
            batch.spans
        ∧ batch.spans.length + batch.malformed_span_count = (wire_spans request).length
        ∧ (batch.partial_batch = true ↔ 0 < batch.malformed_span_count)) := by
  refine ⟨_, convert_eq request, ?_, fun hne => ?_⟩
  · by_cases hnil : wire_spans request = []
    · simp [hnil]
    · simp [hnil]
  · obtain ⟨hkept, hcount⟩ := kept_and_counted (wire_spans request)
    exact ⟨_, if_neg hne, hkept, hcount, decide_eq_true_iff⟩

end Spanfall
