/-
`Delivery.lean` -- from the wire to the answers of `get_trace`.

Between a span on the wire and a row on the screen stand the conversion, the
calls, the channel, the writer, the store with its evictions and the handlers,
and any number of other clients. [`traces_as_sent`] says what is left of all that:
an answer is the rows of the spans on the wire, of the calls that sent first, as
many of them as the writer had applied when the handler read.
-/
import Spanfall.Api.Rows
import Spanfall.Api.Server
import Spanfall.Ingest.Order
import Spanfall.Ingest.Wire

set_option autoImplicit false

namespace Spanfall

open Lib.Runs Lib.Serial Lib.Vec

/-! ## What the wire says -/

/-- What is to be seen of a span on the wire. A parent id that is not of eight
bytes is none, and of the attributes the scalar ones are kept. -/
def wire_sighting (w : ResourceSpans × PbSpan) : Sighting (List UInt8) where
  key := w.2.span_id
  parent := if w.2.parent_span_id.length = 8 then some w.2.parent_span_id else none
  name := w.2.name
  start_time_unix_nano := w.2.start_time_unix_nano
  end_time_unix_nano := w.2.end_time_unix_nano
  status_message := (w.2.status.map (·.message)).getD ""
  status_code := (w.2.status.map (·.code)).getD 0
  unknown_service := decide (w.1.service_names = [])
  service := w.1.service_names.head?
  attributes := w.2.attributes.filterMap fun kv => kv.scalar.map fun value => (kv.key, value)

/-- The spans of a call that can be converted. -/
def AcceptCall.well_formed (call : AcceptCall) : List (ResourceSpans × PbSpan) :=
  (wire_spans call.request).filter fun w => decide w.2.WellFormed

/-- The spans on the wire, of the calls in that order. -/
def Ingest.wire_of (s : Ingest) (order : List ℕ) : List (ResourceSpans × PbSpan) :=
  order.flatMap fun i => (s.calls[i]?.map AcceptCall.well_formed).getD []

/-- The spans of one trace. -/
def of_trace (id : TraceId) (sent : List (ResourceSpans × PbSpan)) :
    List (ResourceSpans × PbSpan) :=
  sent.filter fun w => decide (w.2.trace_id = id.bytes.toList)

/-- The services that the spans name. -/
def services_of (sent : List (ResourceSpans × PbSpan)) : List String :=
  sent.flatMap fun w => w.1.service_names.head?.toList

/-- The keys of the attributes that the spans carry. -/
def keys_of (sent : List (ResourceSpans × PbSpan)) : List String :=
  sent.flatMap fun w => (wire_sighting w).attributes.map Prod.fst

/-- What the converted spans are, of the spans on the wire. -/
structure Converts (sent : List (ResourceSpans × PbSpan)) (spans : List (TraceId × NewSpan)) :
    Prop where
  shown : ∀ id, (of_trace id sent).map wire_sighting
    = (spans.filterMap fun p => if p.1 = id then some p.2 else none).map
        fun span => span.sighting.rename fun span_id => span_id.bytes.toList
  services : services_of sent = spans.flatMap fun p => p.2.service_name.toList
  keys : keys_of sent = spans.flatMap fun p => p.2.attributes.map Prod.fst

theorem Converts.nil : Converts [] [] := ⟨fun _ => rfl, rfl, rfl⟩

theorem Converts.append {sent sent' : List (ResourceSpans × PbSpan)}
    {spans spans' : List (TraceId × NewSpan)} (h : Converts sent spans)
    (h' : Converts sent' spans') : Converts (sent ++ sent') (spans ++ spans') where
  shown id := by
    rw [of_trace, List.filter_append, List.map_append, List.filterMap_append, List.map_append,
      ← h.shown, ← h'.shown]
    rfl
  services := by
    rw [services_of, List.flatMap_append, List.flatMap_append, ← h.services, ← h'.services]
    rfl
  keys := by
    rw [keys_of, List.flatMap_append, List.flatMap_append, ← h.keys, ← h'.keys]
    rfl

/-- One span that converts. -/
theorem converts_one {w : ResourceSpans × PbSpan} {p : TraceId × NewSpan}
    (h : converted_span w = some p) : Converts [w] [p] := by
  have hcarries := converted_span_carries h
  rw [converted_span] at h
  obtain ⟨trace_id, htrace, h⟩ := Option.bind_eq_some_iff.mp h
  obtain ⟨span_id, hspan, h⟩ := Option.bind_eq_some_iff.mp h
  obtain rfl := Option.some.inj h
  have hparent : (if w.2.parent_span_id.length = 8 then some w.2.parent_span_id else none)
      = (span_id_of w.2.parent_span_id).map fun span_id => span_id.bytes.toList := by
    by_cases hlength : w.2.parent_span_id.length = 8
    · obtain ⟨v, hv⟩ := Option.isSome_iff_exists.mp (try_from_isSome.mpr hlength)
      rw [if_pos hlength, span_id_of, hv]
      exact congrArg some (try_from_eq_some.mp hv).symm
    · have hnone : try_from 8 w.2.parent_span_id = none := by
        rw [← Option.not_isSome_iff_eq_none, try_from_isSome]
        exact hlength
      rw [if_neg hlength, span_id_of, hnone]
      rfl
  have hattributes : (w.2.attributes.filterMap fun kv => kv.scalar.map fun value =>
      (kv.key, value)) = w.2.attributes.filterMap attr_of :=
    List.filterMap_congr fun kv _ => (attr_of_eq kv).symm
  refine ⟨fun id => ?_, ?_, ?_⟩
  · rw [of_trace, List.filter_cons, List.filterMap_cons]
    by_cases hid : trace_id = id
    · have hbytes : w.2.trace_id = id.bytes.toList := by rw [← hid, ← hcarries.trace_id]
      rw [if_pos (decide_eq_true hbytes), if_pos hid]
      refine congrArg (fun x => [x]) ?_
      have hunknown : decide (w.1.service_names = []) = w.1.service_names.head?.isNone := by
        cases w.1.service_names <;> rfl
      rw [wire_sighting, hparent, hattributes, ← hcarries.span_id, service_name_of_eq, hunknown]
      rfl
    · have hbytes : ¬w.2.trace_id = id.bytes.toList := fun heq => by
        have htoList : trace_id.bytes.toList = id.bytes.toList := hcarries.trace_id.trans heq
        exact hid (congrArg TraceId.mk (Vector.toList_inj.mp htoList))
      rw [if_neg (by simpa using hbytes), if_neg hid]
      rfl
  · rw [services_of, List.flatMap_cons, List.flatMap_cons, service_name_of_eq]
    rfl
  · rw [keys_of, List.flatMap_cons, List.flatMap_cons, wire_sighting, hattributes]
    rfl

/-- The well-formed ones of a list are those that convert. -/
theorem converts_list (ws : List (ResourceSpans × PbSpan)) :
    Converts (ws.filter fun w => decide w.2.WellFormed) (ws.filterMap converted_span) := by
  induction ws with
  | nil => exact Converts.nil
  | cons w ws ih =>
    have hgood := converted_span_isSome w
    cases hw : converted_span w with
    | none =>
      rw [hw] at hgood
      rw [List.filter_cons_of_neg (by simpa using hgood), List.filterMap_cons_none hw]
      exact ih
    | some p =>
      rw [hw] at hgood
      rw [List.filter_cons_of_pos (by simpa using hgood), List.filterMap_cons_some hw]
      exact (converts_one hw).append ih

/-- The batch of a call is what its well-formed spans convert to. -/
theorem AcceptCall.batch_converts {cfg : IngestConfig} {call : AcceptCall} {batch : SpanBatch}
    (h : call.batch cfg = some batch) : Converts call.well_formed batch.spans := by
  rw [AcceptCall.batch] at h
  cases hconvert : convert cfg.panic_injection call.request with
  | none =>
    rw [hconvert] at h
    cases h
  | some result =>
    rw [hconvert] at h
    cases result with
    | error reason => cases h
    | ok batch' =>
      obtain rfl := Option.some.inj h
      have hplain := convert_uninjected hconvert
      rw [convert_eq, Option.some.injEq] at hplain
      by_cases hempty : wire_spans call.request = []
      · rw [if_pos hempty] at hplain
        cases hplain
      · rw [if_neg hempty, Except.ok.injEq] at hplain
        rw [← hplain]
        exact converts_list _

/-! ## What has been applied -/

namespace Ingest

variable {cfg : IngestConfig}

/-- The batches of calls that have sent are those of the spans on the wire. -/
theorem wire_of_converts {s : Ingest} {order : List ℕ}
    (h : ∀ i ∈ order, (s.sent_at cfg i).isSome) :
    Converts (s.wire_of order) ((s.sent_batches cfg order).flatMap (·.spans)) := by
  induction order with
  | nil => exact Converts.nil
  | cons i order ih =>
    obtain ⟨batch, hbatch⟩ := Option.isSome_iff_exists.mp (h i List.mem_cons_self)
    obtain ⟨call, hcall, hsent⟩ := Option.bind_eq_some_iff.mp hbatch
    rw [wire_of, List.flatMap_cons, hcall, sent_batches, List.filterMap_cons_some hbatch,
      List.flatMap_cons]
    exact (AcceptCall.batch_converts (AcceptCall.batch_of_sent hsent)).append
      (ih fun j hj => h j (List.mem_cons_of_mem _ hj))

/-- The first calls have the first batches. -/
theorem sent_batches_take {s : Ingest} {order : List ℕ}
    (h : ∀ i ∈ order, (s.sent_at cfg i).isSome) (n : ℕ) :
    s.sent_batches cfg (order.take n) = (s.sent_batches cfg order).take n := by
  induction order generalizing n with
  | nil => rw [List.take_nil, sent_batches, List.filterMap_nil, List.take_nil]
  | cons i order ih =>
    cases n with
    | zero => rfl
    | succ n =>
      obtain ⟨batch, hbatch⟩ := Option.isSome_iff_exists.mp (h i List.mem_cons_self)
      have hhead : ∀ later, s.sent_batches cfg (i :: later) = batch :: s.sent_batches cfg later :=
        fun later => List.filterMap_cons_some hbatch
      rw [List.take_succ_cons, hhead, hhead, List.take_succ_cons,
        ih fun j hj => h j (List.mem_cons_of_mem _ hj)]

/-- **The first turns are those of the calls that sent first.** -/
theorem turns_convert {store : Store} {actions : List IngestAction} {s : Ingest}
    (h : exec (step cfg) actions (start store) = some s) {n : ℕ}
    (hn : n ≤ (turns cfg actions (start store)).length) :
    Converts (s.wire_of ((send_order cfg actions (start store)).take n))
      (((turns cfg actions (start store)).take n).flatMap (·.batch.spans)) := by
  have horder := inOrder_of_run h
  have hmap := (store_of_turns h).1
  have hall : ∀ i ∈ send_order cfg actions (start store), (s.sent_at cfg i).isSome :=
    fun i hi => (horder.sent i).mp hi
  have happlied : ((turns cfg actions (start store)).take n).map (·.batch)
      = s.sent_batches cfg ((send_order cfg actions (start store)).take n) := by
    rw [sent_batches_take hall, List.map_take, hmap, List.prefix_iff_eq_take.mp horder.applied,
      List.take_take]
    congr 1
    have hlength := congrArg List.length hmap
    rw [List.length_map] at hlength
    omega
  have hspans : ((turns cfg actions (start store)).take n).flatMap (·.batch.spans)
      = (s.sent_batches cfg ((send_order cfg actions (start store)).take n)).flatMap (·.spans) := by
    rw [← happlied, List.flatMap_map]
  rw [hspans]
  exact wire_of_converts fun i hi => hall i (List.mem_of_mem_take hi)

/-- What the events of turns send. -/
theorem sent_turns (turns : List AppliedBatch) :
    Store.sent (turn_events turns) = turns.flatMap (·.batch.spans) := by
  rw [Store.sent, turn_events, List.flatMap_assoc]
  exact List.flatMap_congr fun a _ => Store.sent_batch a.batch _ _

end Ingest

/-! ## The answers -/

namespace Server

variable {decoders : Decoders} {cfg : IngestConfig} {m : ℕ} {actions : List ServerAction}
  {s : Server}

/-- The calls whose sends completed, in that order. -/
def send_order (decoders : Decoders) (cfg : IngestConfig) (actions : List ServerAction)
    (store : Store) : List ℕ :=
  Ingest.send_order cfg (inner decoders cfg actions) (Ingest.start store)

/-- A read saw the store after its turns, and these are the first sends. -/
theorem read_as_sent (h : exec (step decoders cfg) actions (start (Store.new m)) = some s)
    {i : ℕ} {r : Read Store} (hr : (i, r) ∈ reads decoders cfg actions (start (Store.new m))) :
    ∃ es, exec Store.step es (Store.new m) = some r.state
      ∧ Converts (s.exports.ingest.wire_of
          ((send_order decoders cfg actions (Store.new m)).take r.position)) (Store.sent es)
      ∧ Store.attrs_sent es
        ≤ ((turns decoders cfg actions (Store.new m)).map fun a => a.batch.attributes).sum := by
  have hserial := reads_serialized h
  have hmem : r ∈ (reads decoders cfg actions (start (Store.new m))).map Prod.snd :=
    List.mem_map_of_mem hr
  refine ⟨_, Ingest.exec_turn_events (hserial.shows r hmem), ?_, ?_⟩
  · rw [Ingest.sent_turns]
    exact Ingest.turns_convert (inner_run h) (hserial.bounded r hmem)
  · rw [Ingest.attrs_sent_turns, List.map_map]
    exact ((List.take_sublist _ _).map _).sum_le_sum fun _ _ => Nat.zero_le _

/-- What the handler answered is what it got from the store. -/
theorem answered_of_elim {α : Type} {o : Option α} {f : α → ApiAnswer} {answer : ApiAnswer}
    (h : .answered answer = o.elim ApiCallState.panicked fun x => .answered (f x)) :
    ∃ x, o = some x ∧ answer = f x := by
  cases o with
  | none => cases h
  | some x => exact ⟨x, rfl, ApiCallState.answered.inj h⟩

/-- A call that was answered by the store was answered from its read. -/
theorem answered_from_read {store : Store}
    (h : exec (step decoders cfg) actions (start store) = some s) {i : ℕ} {call : ApiCall}
    (hi : s.requests[i]? = some call) {answer : ApiAnswer} (hstate : call.state = .answered answer)
    (hlint : call.request ≠ .get_lint) (hreceiver : ∀ response, answer ≠ .receiver response) :
    ∃ r, (i, r) ∈ reads decoders cfg actions (start store)
      ∧ ∃ order, .answered answer = r.state.serve order call.request := by
  have hserved := served_of_run h
  obtain ⟨⟨j, r⟩, hr, hj⟩ := List.mem_map.mp
    (hserved.answered i call hi (by rw [hstate]; nofun) hlint)
  obtain rfl : j = i := hj
  obtain ⟨call', hcall', hfrom⟩ := hserved.read j r hr
  obtain rfl := Option.some.inj (hcall'.symm.trans hi)
  rw [ApiCall.ReadFrom, hstate] at hfrom
  refine ⟨r, hr, ?_⟩
  cases answer with
  | receiver response => exact absurd rfl (hreceiver response)
  | _ => exact hfrom

/-- What of the wire had been applied when the store was read. -/
def wire_at (decoders : Decoders) (cfg : IngestConfig) (actions : List ServerAction)
    (store : Store) (s : Server) (r : Read Store) : List (ResourceSpans × PbSpan) :=
  s.exports.ingest.wire_of ((send_order decoders cfg actions store).take r.position)

/-- The spans of a trace, as they were sent and as the wire has them. -/
theorem sightings_agree {es : List Event} {sent : List (ResourceSpans × PbSpan)}
    (h : Converts sent (Store.sent es)) (id : TraceId) (lost : ℕ) :
    ((of_trace id sent).drop lost).map wire_sighting
      = (((Store.sent_to es id).drop lost).map NewSpan.sighting).map
          (Sighting.rename fun span_id : SpanId => span_id.bytes.toList) := by
  rw [List.map_drop, h.shown id, ← List.map_drop, List.map_map, Store.sent_to]
  rfl

theorem bytes_injective : Function.Injective fun span_id : SpanId => span_id.bytes.toList :=
  fun _ _ h => congrArg SpanId.mk (Vector.toList_inj.mp h)

theorem services_agree {es : List Event} {sent : List (ResourceSpans × PbSpan)}
    (h : Converts sent (Store.sent es)) : services_of sent = Store.services_shown es := by
  rw [h.services, Store.services_shown_sent, Store.sent_bare, List.flatMap_map]
  rfl

theorem keys_agree {es : List Event} {sent : List (ResourceSpans × PbSpan)}
    (h : Converts sent (Store.sent es)) : keys_of sent = Store.keys_shown es := by
  rw [h.keys, Store.sent, Store.keys_shown, List.flatMap_assoc]
  refine List.flatMap_congr fun e _ => ?_
  cases e with
  | insert trace_id span now => exact List.append_nil _
  | malformed count => rfl
  | sweep order => rfl

/-- **The answers of `get_trace` are what the wire said.** The handler read after
a number of turns of the writer, and these were the batches of the calls that sent
first. Of the well-formed spans in them that belong to the trace, all are shown if
nothing had been evicted by then, and otherwise those behind some point: one row a
span id, in the order in which the ids came first, with what came last under the
id, hanging where the first span with the id said. -/
theorem traces_as_sent (h : exec (step decoders cfg) actions (start (Store.new m)) = some s)
    {i : ℕ} {call : ApiCall} {text : String} {id : TraceId} {response : Response TracePayload}
    (hi : s.requests[i]? = some call) (hrequest : call.request = .get_trace text)
    (hid : TraceId.from_hex text = some id) (hstate : call.state = .answered (.trace response)) :
    ∃ r, (i, r) ∈ reads decoders cfg actions (start (Store.new m)) ∧
      let sent := wire_at decoders cfg actions (Store.new m) s r
      ∃ lost, (lost = 0 ∨ 0 < r.state.counters.evicted_traces)
        ∧ Encodes id (show_rows (interned (services_of sent))
            (((of_trace id sent).drop lost).map wire_sighting)) response := by
  obtain ⟨r, hr, order, hserve⟩ :=
    answered_from_read h hi hstate (by rw [hrequest]; nofun) nofun
  rw [hrequest, Store.serve] at hserve
  obtain ⟨_, hget, hsame⟩ := answered_of_elim hserve
  obtain rfl := ApiAnswer.trace.inj hsame
  obtain ⟨es, hes, hconverts, _⟩ := read_as_sent h hr
  obtain ⟨lost, hlost, hencodes⟩ := Store.get_trace_as_sent hes hid hget
  refine ⟨r, hr, lost, hlost, ?_⟩
  rw [wire_at, services_agree hconverts, sightings_agree hconverts, show_rows_rename bytes_injective]
  exact hencodes

/-- **The answers of `get_attributes` are what the wire said**, as long as the
requests carry fewer attributes than an offset can count: of the span that came
last with the id of the row, the attributes with a scalar value, in order. -/
theorem attributes_as_sent (h : exec (step decoders cfg) actions (start (Store.new m)) = some s)
    (hsmall : (s.exports.ingest.calls.map (AcceptCall.attributes cfg)).sum < 2 ^ 32)
    {i idx : ℕ} {call : ApiCall} {text : String} {id : TraceId}
    {response : Response (List AttributeEntry)} (hi : s.requests[i]? = some call)
    (hrequest : call.request = .get_attributes text idx) (hid : TraceId.from_hex text = some id)
    (hstate : call.state = .answered (.attributes response)) :
    ∃ r, (i, r) ∈ reads decoders cfg actions (start (Store.new m)) ∧
      let sent := wire_at decoders cfg actions (Store.new m) s r
      ∃ lost, (lost = 0 ∨ 0 < r.state.counters.evicted_traces)
        ∧ response = show_attributes (interned (keys_of sent))
            (((of_trace id sent).drop lost).map wire_sighting) idx := by
  obtain ⟨r, hr, order, hserve⟩ :=
    answered_from_read h hi hstate (by rw [hrequest]; nofun) nofun
  rw [hrequest, Store.serve] at hserve
  obtain ⟨_, hget, hsame⟩ := answered_of_elim hserve
  obtain rfl := ApiAnswer.attributes.inj hsame
  obtain ⟨es, hes, hconverts, hbound⟩ := read_as_sent h hr
  have hfew : Store.attrs_sent es < 2 ^ 32 := by
    refine lt_of_le_of_lt hbound (lt_of_le_of_lt ?_ hsmall)
    exact Ingest.attributes_applied (inner_run h) hsmall
  obtain ⟨lost, hlost, hshows⟩ := Store.get_attributes_as_sent hes hfew hid hget
  refine ⟨r, hr, lost, hlost, ?_⟩
  rw [wire_at, keys_agree hconverts, sightings_agree hconverts,
    show_attributes_rename bytes_injective]
  exact hshows

/-- What a call was answered. -/
def answer_of (s : Server) (i : ℕ) : Option ApiAnswer :=
  s.requests[i]?.bind fun call =>
    match call.state with
    | .answered answer => some answer
    | _ => none

theorem answer_of_eq_some {i : ℕ} {answer : ApiAnswer} (h : s.answer_of i = some answer) :
    ∃ call, s.requests[i]? = some call ∧ call.state = .answered answer := by
  obtain ⟨call, hcall, h⟩ := Option.bind_eq_some_iff.mp h
  refine ⟨call, hcall, ?_⟩
  split at h
  · rw [← Option.some.inj h]
    assumption
  · cases h

/-- Two calls send in the other order, the same span twice under two names and a
malformed one; the trace, the attributes of its span, the list and a query are asked
for when only one of the batches is applied. -/
def two_names : List ServerAction :=
  [wire_message [{ Ingest.wire_span 16 with name := "late" }],
    wire_message [{ Ingest.wire_span 16 with attributes :=
          [{ key := "a", value := some { value := some (.bool_value true) } },
            { key := "b", value := some { value := some .array_value } }] },
        Ingest.wire_span 15],
    .ingest (.proceed (.convert 0)), .ingest (.proceed (.convert 1)),
    .ingest (.proceed (.send 1)), .ingest (.proceed .recv), .ingest (.proceed (.send 0)),
    .ingest (.proceed (.apply 7 TraceOrder.by_id)), .request (.get_trace (tid 1).to_hex),
    .request (.get_attributes (tid 1).to_hex 0), .request .list_traces,
    .request (.get_filter (tid 1).to_hex (some "a=true gone!=1 status=q")), .read 0 TraceOrder.by_id,
    .read 2 TraceOrder.by_id, .read 3 TraceOrder.by_id, .read 1 TraceOrder.by_id,
    .ingest (.proceed .bump), .ingest (.proceed .recv),
    .ingest (.proceed (.apply 8 TraceOrder.by_id))]

theorem two_names_run : (exec (step Exports.two_bodies Ingest.small_channel) two_names
    (start (Store.new 1000))).isSome := by
  decide +kernel

/-- Where it ends. -/
def two_names_end : Server := Option.get _ two_names_run

theorem two_names_exec : exec (step Exports.two_bodies Ingest.small_channel) two_names
    (start (Store.new 1000)) = some two_names_end :=
  (Option.some_get two_names_run).symm

/-- What of it had been applied. -/
def two_names_wire (r : Read Store) : List (ResourceSpans × PbSpan) :=
  wire_at Exports.two_bodies Ingest.small_channel two_names (Store.new 1000) two_names_end r

/-- The trace as it was shown. -/
def two_names_trace : Option (Response TracePayload) :=
  match two_names_end.answer_of 0 with
  | some (.trace response) => some response
  | _ => none

/-- The attributes as they were shown. -/
def two_names_attributes : Option (Response (List AttributeEntry)) :=
  match two_names_end.answer_of 1 with
  | some (.attributes response) => some response
  | _ => none

theorem traces_as_sent_two_names :
    ∃ response r lost, two_names_trace = some response
      ∧ (0, r) ∈ reads Exports.two_bodies Ingest.small_channel two_names (start (Store.new 1000))
      ∧ (lost = 0 ∨ 0 < r.state.counters.evicted_traces)
      ∧ send_order Exports.two_bodies Ingest.small_channel two_names (Store.new 1000) = [1, 0]
      ∧ Encodes (tid 1) (show_rows (interned (services_of (two_names_wire r)))
          (((of_trace (tid 1) (two_names_wire r)).drop lost).map wire_sighting)) response := by
  obtain ⟨response, hresponse⟩ := Option.isSome_iff_exists.mp
    (show two_names_trace.isSome by decide +kernel)
  have hanswer : two_names_end.answer_of 0 = some (.trace response) := by
    rw [two_names_trace] at hresponse
    split at hresponse
    · rename_i hanswer
      rw [hanswer, Option.some.inj hresponse]
    · cases hresponse
  obtain ⟨call, hcall, hstate⟩ := answer_of_eq_some hanswer
  have hrequest : two_names_end.requests[0]?.map (·.request)
      = some (.get_trace (tid 1).to_hex) := by decide +kernel
  rw [hcall, Option.map_some, Option.some.injEq] at hrequest
  obtain ⟨r, hr, lost, hlost, hencodes⟩ :=
    traces_as_sent two_names_exec hcall hrequest (TraceId.from_hex_to_hex _) hstate
  exact ⟨response, r, lost, hresponse, hr, hlost, by decide +kernel, hencodes⟩

theorem attributes_as_sent_two_names :
    ∃ r lost, (1, r) ∈ reads Exports.two_bodies Ingest.small_channel two_names
          (start (Store.new 1000))
      ∧ (lost = 0 ∨ 0 < r.state.counters.evicted_traces)
      ∧ .ok [{ key := "a", value := .bool true }]
        = show_attributes (interned (keys_of (two_names_wire r)))
          (((of_trace (tid 1) (two_names_wire r)).drop lost).map wire_sighting) 0 := by
  have hresponse : two_names_attributes = some (.ok [{ key := "a", value := .bool true }]) := by
    decide +kernel
  have hanswer : two_names_end.answer_of 1
      = some (.attributes (.ok [{ key := "a", value := .bool true }])) := by
    rw [two_names_attributes] at hresponse
    split at hresponse
    · rename_i hanswer
      rw [hanswer, Option.some.inj hresponse]
    · cases hresponse
  obtain ⟨call, hcall, hstate⟩ := answer_of_eq_some hanswer
  have hrequest : two_names_end.requests[1]?.map (·.request)
      = some (.get_attributes (tid 1).to_hex 0) := by decide +kernel
  rw [hcall, Option.map_some, Option.some.injEq] at hrequest
  obtain ⟨r, hr, lost, hlost, hshows⟩ := attributes_as_sent two_names_exec
    (by decide +kernel) hcall hrequest (TraceId.from_hex_to_hex _) hstate
  exact ⟨r, lost, hr, hlost, hshows⟩

end Server

end Spanfall
