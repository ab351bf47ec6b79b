/-
`Apart.lean` -- a trace is shown apart from everything else.

The answers about one trace are functions of the spans on the wire that belong to
it: not of the other traces, of the calls and transports by which the spans came,
of when the batches were applied, or of the store's budget. So two servers that
were told the same about a trace answer every call about it alike
([`own_spans_only`]). It takes that neither has evicted or refused anything by
then, and for a query that the keys it names have been on the wire of both or of
neither.
-/
import Spanfall.Api.Overview

set_option autoImplicit false

namespace Spanfall

open Lib.LastWrite Lib.Runs Lib.Serial Lib.Vec

/-! ## Answers without a store -/

/-- Below the cap, the strings that were presented are known. -/
theorem interned_of_few {ss : List String} (hfew : ss.eraseDups.length ≤ GLOBAL_INTERNER_CAP)
    (name : String) : interned ss name = decide (name ∈ ss) := by
  rw [interned, accepted, List.take_of_length_le hfew]
  exact decide_eq_decide.mpr List.mem_eraseDups

/-- The answer that holds the rows of a trace, which is in its first generation. -/
def first_answer (id : TraceId) (rows : List Row) : Response TracePayload :=
  if rows = [] then .not_found
  else
    let (payload, table) :=
      rows.foldl Store.push (Store.empty_payload (Trace.new id 0), StringTable.default)
    .ok { payload with string_table := table.strings }

section Congr

variable {κ : Type} [DecidableEq κ] {spans : List (Sighting κ)}

/-- Which services are known matters for those of the spans only. -/
theorem show_rows_congr {known known' : String → Bool}
    (h : ∀ x ∈ spans, ∀ name, x.service = some name → known name = known' name) :
    show_rows known spans = show_rows known' spans := by
  have hservice : ∀ x ∈ spans, x.service.filter known = x.service.filter known' := by
    intro x hx
    cases hname : x.service with
    | none => rfl
    | some name => rw [Option.filter_some, Option.filter_some, h x hx name hname]
  refine List.ext_getElem? fun i => ?_
  rw [show_rows, show_rows, List.getElem?_zipWith, List.getElem?_zipWith]
  cases hlast : (lastWrites Sighting.key spans)[i]? with
  | none => rfl
  | some last =>
    have hmem := mem_of_mem_lastWrites (List.mem_of_getElem? hlast)
    cases (firstWrites Sighting.key spans)[i]? with
    | none => rfl
    | some first =>
      dsimp only
      rw [Sighting.row, Sighting.row, hservice last hmem]

/-- Which keys are known matters for those of the spans only. -/
theorem show_attributes_congr {known known' : String → Bool}
    (h : ∀ x ∈ spans, ∀ kv ∈ x.attributes, known kv.1 = known' kv.1) (idx : ℕ) :
    show_attributes known spans idx = show_attributes known' spans idx := by
  rw [show_attributes, show_attributes]
  cases hlast : (lastWrites Sighting.key spans)[idx]? with
  | none => rfl
  | some last =>
    dsimp only
    rw [List.filter_congr (h last (mem_of_mem_lastWrites (List.mem_of_getElem? hlast)))]

/-- To a query the keys that it names matter as well. -/
theorem show_filter_congr {keys keys' services services' : String → Bool} {qs : List QueryTerm}
    (hservices : ∀ x ∈ spans, ∀ name, x.service = some name → services name = services' name)
    (hkeys : ∀ x ∈ spans, ∀ kv ∈ x.attributes, keys kv.1 = keys' kv.1)
    (hqs : ∀ op key raw, .attr op key raw ∈ qs → keys key = keys' key)
    (dropped_terms : List String) :
    show_filter keys services spans qs dropped_terms
      = show_filter keys' services' spans qs dropped_terms := by
  have hrecord : ∀ x ∈ spans, x.record keys services = x.record keys' services' := by
    intro x hx
    rw [Sighting.record, Sighting.record, List.filter_congr (hkeys x hx)]
    cases hname : x.service with
    | none => rfl
    | some name => rw [Option.filter_some, Option.filter_some, hservices x hx name hname]
  have hhits : ∀ r, (qs.all fun q => q.hits keys r) = qs.all fun q => q.hits keys' r := by
    intro r
    rw [Bool.eq_iff_iff, List.all_eq_true, List.all_eq_true]
    refine forall₂_congr fun q hq => ?_
    cases q with
    | attr op key raw => rw [QueryTerm.hits, QueryTerm.hits, hqs op key raw hq]
    | _ => rfl
  rw [show_filter, show_filter]
  by_cases hnone : spans = []
  · rw [if_pos hnone, if_pos hnone]
  rw [if_neg hnone, if_neg hnone]
  refine congrArg Response.ok (congrArg (FilterResponse.mk · dropped_terms) ?_)
  refine List.filter_congr fun i _ => ?_
  cases hlast : (lastWrites Sighting.key spans)[i]? with
  | none => rfl
  | some last =>
    have hmem := mem_of_mem_lastWrites (List.mem_of_getElem? hlast)
    rw [Option.any_some, Option.any_some, hrecord last hmem]
    exact hhits _

end Congr

namespace Store

variable {m : ℕ} {es : List Event} {s : Store} {id : TraceId} {text : String}

/-- What `get_trace` answers as long as nothing has been evicted. -/
theorem get_trace_kept (hs : exec step es (new m) = some s)
    (hkept : s.counters.evicted_traces = 0) (hid : TraceId.from_hex text = some id)
    {response : Response TracePayload} (h : s.get_trace text = some response) :
    response = first_answer id (show_rows (interned (services_shown es))
      ((sent_to es id).map NewSpan.sighting)) := by
  have harrived := (arrivals_of_kept hs hkept id).1
  rw [get_trace, hid] at h
  dsimp only at h
  rw [← harrived, first_answer]
  cases ht : s.trace id with
  | none =>
    rw [ht] at h
    rw [← Option.some.inj h, (bare_of_run hs).absent id ht]
    rfl
  | some t =>
    rw [ht] at h
    obtain ⟨payload, hpayload, rfl⟩ := Option.map_eq_some_iff.mp h
    have hrows := rows_as_arrived hs ht
    have hpresent := (resident_as_arrived hs id).mp (Option.isSome_of_eq_some ht)
    have hempty : empty_payload t = empty_payload (Trace.new id 0) := by
      rw [empty_payload, empty_payload, (first_generation hs hkept id).2 t ht,
        trace_id_of_run hs id t ht]
      rfl
    rw [trace_payload_eq, hrows, Option.map_some, Option.some.injEq, hempty] at hpayload
    rw [if_neg (show_rows_eq_nil.not.mpr (List.map_eq_nil_iff.not.mpr hpresent)), ← hpayload]

end Store

/-! ## Two servers -/

/-- The trace that a request is about. -/
def ApiRequest.trace_id : ApiRequest → Option TraceId
  | get_trace id => TraceId.from_hex id
  | get_attributes id _ => TraceId.from_hex id
  | get_filter id _ => TraceId.from_hex id
  | _ => none

/-- The keys that a request names. -/
def ApiRequest.names (request : ApiRequest) (key : String) : Prop :=
  ∃ id q qs dropped_terms op raw, request = get_filter id q
    ∧ Parses (q.getD "") qs dropped_terms ∧ .attr op key raw ∈ qs

namespace Server

variable {decoders decoders' : Decoders} {cfg cfg' : IngestConfig} {m m' : ℕ}
  {actions actions' : List ServerAction} {s s' : Server} {i i' : ℕ} {request : ApiRequest}
  {answer answer' : ApiAnswer} {sent sent' : List (ResourceSpans × PbSpan)} {id : TraceId}

/-- A call that was answered when the store had lost nothing of what was `sent`. -/
structure Untroubled (decoders : Decoders) (cfg : IngestConfig) (m : ℕ)
    (actions : List ServerAction) (s : Server) (i : ℕ) (request : ApiRequest) (answer : ApiAnswer)
    (sent : List (ResourceSpans × PbSpan)) : Prop where
  run : exec (step decoders cfg) actions (start (Store.new m)) = some s
  small : (s.exports.ingest.calls.map (AcceptCall.attributes cfg)).sum < 2 ^ 32
  call : s.requests[i]? = some { request, state := .answered answer }
  kept : ∃ r, (i, r) ∈ reads decoders cfg actions (start (Store.new m))
    ∧ wire_at decoders cfg actions (Store.new m) s r = sent
    ∧ r.state.counters.evicted_traces = 0
  services : (services_of sent).eraseDups.length ≤ GLOBAL_INTERNER_CAP
  keys : (keys_of sent).eraseDups.length ≤ GLOBAL_INTERNER_CAP

/-- The services of a trace's spans are known. -/
theorem Untroubled.service_known (h : Untroubled decoders cfg m actions s i request answer sent)
    (id : TraceId) : ∀ x ∈ (of_trace id sent).map wire_sighting, ∀ name, x.service = some name →
      interned (services_of sent) name = true := by
  intro x hx name hname
  obtain ⟨w, hw, rfl⟩ := List.mem_map.mp hx
  rw [interned_of_few h.services, decide_eq_true_iff, services_of, List.mem_flatMap]
  exact ⟨w, List.mem_of_mem_filter hw, Option.mem_toList.mpr hname⟩

/-- The keys of a trace's spans are known. -/
theorem Untroubled.key_known (h : Untroubled decoders cfg m actions s i request answer sent)
    (id : TraceId) : ∀ x ∈ (of_trace id sent).map wire_sighting, ∀ kv ∈ x.attributes,
      interned (keys_of sent) kv.1 = true := by
  intro x hx kv hkv
  obtain ⟨w, hw, rfl⟩ := List.mem_map.mp hx
  rw [interned_of_few h.keys, decide_eq_true_iff, keys_of, List.mem_flatMap]
  exact ⟨w, List.mem_of_mem_filter hw, List.mem_map_of_mem hkv⟩

/-- The store that such a call has read. -/
theorem Untroubled.store (h : Untroubled decoders cfg m actions s i request answer sent)
    (hid : request.trace_id = some id) :
    ∃ es store order, exec Store.step es (Store.new m) = some store
      ∧ store.counters.evicted_traces = 0 ∧ Converts sent (Store.sent es)
      ∧ Store.attrs_sent es < 2 ^ 32 ∧ .answered answer = store.serve order request := by
  obtain ⟨r, hr, rfl, hkept⟩ := h.kept
  obtain ⟨es, hes, hconverts, hbound⟩ := read_as_sent h.run hr
  obtain ⟨call, hcall, hfrom⟩ := (served_of_run h.run).read i r hr
  obtain rfl := Option.some.inj (hcall.symm.trans h.call)
  obtain ⟨order, hserve⟩ : ∃ order, .answered answer = r.state.serve order request := by
    cases answer with
    | receiver response =>
      have hrequest : request = .get_receiver := hfrom.1
      rw [hrequest] at hid
      cases hid
    | _ => exact hfrom
  exact ⟨es, r.state, order, hes, hkept, hconverts,
    hbound.trans_lt ((Ingest.attributes_applied (inner_run h.run) h.small).trans_lt h.small), hserve⟩

/-- What such a call of `get_trace` was answered. -/
theorem Untroubled.trace_answer {text : String}
    (h : Untroubled decoders cfg m actions s i (.get_trace text) answer sent)
    (hid : TraceId.from_hex text = some id) :
    answer = .trace (first_answer id
      (show_rows (fun _ => true) ((of_trace id sent).map wire_sighting))) := by
  obtain ⟨es, store, order, hes, hkept, hconverts, _, hserve⟩ := h.store hid
  obtain ⟨response, hget, rfl⟩ := answered_of_elim hserve
  have hagree := sightings_agree hconverts id 0
  rw [List.drop_zero, List.drop_zero] at hagree
  rw [Store.get_trace_kept hes hkept hid hget,
    ← show_rows_congr fun x hx name hname => h.service_known id x hx name hname,
    services_agree hconverts, hagree, show_rows_rename bytes_injective]

/-- What such a call of `get_attributes` was answered. -/
theorem Untroubled.attributes_answer {text : String} {idx : ℕ}
    (h : Untroubled decoders cfg m actions s i (.get_attributes text idx) answer sent)
    (hid : TraceId.from_hex text = some id) :
    answer = .attributes
      (show_attributes (fun _ => true) ((of_trace id sent).map wire_sighting) idx) := by
  obtain ⟨es, store, order, hes, hkept, hconverts, hfew, hserve⟩ := h.store hid
  obtain ⟨response, hget, rfl⟩ := answered_of_elim hserve
  obtain ⟨lost, hlost, hshows⟩ := Store.get_attributes_as_sent hes hfew hid hget
  obtain rfl : lost = 0 := hlost.resolve_right (by omega)
  have hagree := sightings_agree hconverts id 0
  rw [List.drop_zero] at hagree
  rw [hshows, ← show_attributes_congr fun x hx kv hkv => h.key_known id x hx kv hkv,
    keys_agree hconverts, hagree, show_attributes_rename bytes_injective]

/-- What such a call of `get_filter` was answered. -/
theorem Untroubled.filter_answer {text : String} {q : Option String}
    (h : Untroubled decoders cfg m actions s i (.get_filter text q) answer sent)
    (hid : TraceId.from_hex text = some id) {qs : List QueryTerm} {dropped_terms : List String}
    (hparse : Parses (q.getD "") qs dropped_terms) :
    answer = .filter (show_filter (interned (keys_of sent)) (interned (services_of sent))
      ((of_trace id sent).map wire_sighting) qs dropped_terms) := by
  obtain ⟨es, store, order, hes, hkept, hconverts, hfew, hserve⟩ := h.store hid
  obtain ⟨response, hget, rfl⟩ := answered_of_elim hserve
  obtain ⟨lost, hlost, hshows⟩ := Store.get_filter_as_sent hes hfew hid hparse hget
  obtain rfl : lost = 0 := hlost.resolve_right (by omega)
  have hagree := sightings_agree hconverts id 0
  rw [List.drop_zero] at hagree
  rw [hshows, keys_agree hconverts, services_agree hconverts, hagree,
    show_filter_rename bytes_injective]

/-- **A trace is shown by its own spans.** Two servers that were told the same about
a trace, whatever else they were told, in what batches, over which ports and when,
give a call about the trace the same answer. -/
theorem own_spans_only (h : Untroubled decoders cfg m actions s i request answer sent)
    (h' : Untroubled decoders' cfg' m' actions' s' i' request answer' sent')
    (hid : request.trace_id = some id)
    (hsame : (of_trace id sent).map wire_sighting = (of_trace id sent').map wire_sighting)
    (hkeys : ∀ key, request.names key → (key ∈ keys_of sent ↔ key ∈ keys_of sent')) :
    answer = answer' := by
  cases request with
  | get_trace text => rw [h.trace_answer hid, h'.trace_answer hid, hsame]
  | get_attributes text idx => rw [h.attributes_answer hid, h'.attributes_answer hid, hsame]
  | get_filter text q =>
    obtain ⟨qs, dropped_terms, hparse⟩ := exists_parses (q.getD "")
    rw [h.filter_answer hid hparse, h'.filter_answer hid hparse, ← hsame]
    refine congrArg ApiAnswer.filter (show_filter_congr ?_ ?_ ?_ dropped_terms)
    · intro x hx name hname
      rw [h.service_known id x hx name hname, h'.service_known id x (hsame ▸ hx) name hname]
    · intro x hx kv hkv
      rw [h.key_known id x hx kv hkv, h'.key_known id x (hsame ▸ hx) kv hkv]
    · intro op key raw hq
      rw [interned_of_few h.keys, interned_of_few h'.keys]
      exact decide_eq_decide.mpr (hkeys key ⟨text, q, qs, dropped_terms, op, raw, rfl, hparse, hq⟩)
  | list_traces => cases hid
  | get_receiver => cases hid
  | get_lint => cases hid

/-- A span of one trace in one batch with a span of another, the query before the
writer announces. -/
def in_one_batch : List ServerAction :=
  [wire_message [{ Ingest.wire_span 16 with attributes :=
          [{ key := "a", value := some { value := some (.bool_value true) } }] },
        { Ingest.wire_span 16 with trace_id := List.replicate 16 3 },
        { Ingest.wire_span 16 with name := "late" }],
    .ingest (.proceed (.convert 0)), .ingest (.proceed (.send 0)), .ingest (.proceed .recv),
    .request (.get_filter (tid 1).to_hex (some "a!=true")),
    .ingest (.proceed (.apply 7 TraceOrder.by_id)), .read 0 TraceOrder.by_id]

/-- The same span in two batches, after a call that lists nothing. -/
def in_two_batches : List ServerAction :=
  [.request .list_traces, .read 0 TraceOrder.by_id,
    wire_message [{ Ingest.wire_span 16 with attributes :=
          [{ key := "a", value := some { value := some (.bool_value true) } }] }],
    wire_message [{ Ingest.wire_span 16 with name := "late" }],
    .ingest (.proceed (.convert 0)), .ingest (.proceed (.send 0)), .ingest (.proceed .recv),
    .ingest (.proceed (.convert 1)), .ingest (.proceed (.send 1)),
    .ingest (.proceed (.apply 3 TraceOrder.by_id)), .ingest (.proceed .bump),
    .ingest (.proceed .recv), .ingest (.proceed (.apply 4 TraceOrder.by_id)),
    .ingest (.proceed .bump), .request (.get_filter (tid 1).to_hex (some "a!=true")),
    .read 1 TraceOrder.by_id]

theorem in_one_batch_run : (exec (step Exports.two_bodies Ingest.small_channel) in_one_batch
    (start (Store.new 1000))).isSome := by
  decide +kernel

theorem in_two_batches_run : (exec (step Exports.two_bodies Ingest.small_channel) in_two_batches
    (start (Store.new 5000))).isSome := by
  decide +kernel

/-- A call is untroubled if the read of it is there to be seen. -/
theorem Untroubled.of_read (run : exec (step decoders cfg) actions (start (Store.new m)) = some s)
    (small : (s.exports.ingest.calls.map (AcceptCall.attributes cfg)).sum < 2 ^ 32)
    (hrequest : s.requests[i]?.map (·.request) = some request)
    (hanswer : s.answer_of i = some answer)
    (hread : ((reads decoders cfg actions (start (Store.new m))).any fun p =>
      decide (p.1 = i) && decide (wire_at decoders cfg actions (Store.new m) s p.2 = sent)
        && decide (p.2.state.counters.evicted_traces = 0)) = true)
    (services : (services_of sent).eraseDups.length ≤ GLOBAL_INTERNER_CAP)
    (keys : (keys_of sent).eraseDups.length ≤ GLOBAL_INTERNER_CAP) :
    Untroubled decoders cfg m actions s i request answer sent where
  run := run
  small := small
  call := by
    obtain ⟨call, hcall, hstate⟩ := answer_of_eq_some hanswer
    rw [hcall, Option.map_some, Option.some.injEq] at hrequest
    rw [hcall, ← hrequest, ← hstate]
  kept := by
    obtain ⟨⟨j, r⟩, hr, htrue⟩ := List.any_eq_true.mp hread
    simp only [Bool.and_eq_true, decide_eq_true_eq] at htrue
    obtain ⟨⟨rfl, hsent⟩, hkept⟩ := htrue
    exact ⟨r, hr, hsent, hkept⟩
  services := services
  keys := keys

/-- The two ends, and what was on the wires. -/
def one_batch_end : Server := Option.get _ in_one_batch_run
def two_batches_end : Server := Option.get _ in_two_batches_run
def one_batch_wire : List (ResourceSpans × PbSpan) := one_batch_end.exports.ingest.wire_of [0]
def two_batches_wire : List (ResourceSpans × PbSpan) :=
  two_batches_end.exports.ingest.wire_of [0, 1]

theorem own_spans_only_batches :
    ∃ answer, one_batch_end.answer_of 0 = some answer
      ∧ two_batches_end.answer_of 1 = some answer := by
  obtain ⟨answer, hanswer⟩ := Option.isSome_iff_exists.mp
    (show (one_batch_end.answer_of 0).isSome by decide +kernel)
  obtain ⟨answer', hanswer'⟩ := Option.isSome_iff_exists.mp
    (show (two_batches_end.answer_of 1).isSome by decide +kernel)
  have h : Untroubled Exports.two_bodies Ingest.small_channel 1000 in_one_batch one_batch_end 0
      (.get_filter (tid 1).to_hex (some "a!=true")) answer one_batch_wire :=
    .of_read (Option.some_get _).symm (by decide +kernel) (by decide +kernel) hanswer
      (by decide +kernel) (by decide +kernel) (by decide +kernel)
  have h' : Untroubled Exports.two_bodies Ingest.small_channel 5000 in_two_batches two_batches_end 1
      (.get_filter (tid 1).to_hex (some "a!=true")) answer' two_batches_wire :=
    .of_read (Option.some_get _).symm (by decide +kernel) (by decide +kernel) hanswer'
      (by decide +kernel) (by decide +kernel) (by decide +kernel)
  have hkeys : keys_of one_batch_wire = keys_of two_batches_wire := by decide +kernel
  have hsame := own_spans_only h h' (TraceId.from_hex_to_hex _) (by decide +kernel)
    fun key _ => by rw [hkeys]
  exact ⟨answer, hanswer, hsame ▸ hanswer'⟩

end Server

end Spanfall
