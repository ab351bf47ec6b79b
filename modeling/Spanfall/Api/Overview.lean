/-
`Overview.lean` -- the list of traces and the filter, from the wire.

Like the rows of a trace, its entry in the list and the spans that a query hits are
said of the spans on the wire alone: the entry sums up the rows
([`list_as_sent`]), and a term is asked of what came last under each span id
([`filter_as_sent`]). Of the store remains which strings were known to it, and a
term that names an unknown key hits nothing, whatever its operator.
-/
import Spanfall.Api.Delivery
import Spanfall.Api.Juxtapose
import Spanfall.Api.Matching

set_option autoImplicit false

namespace Spanfall

open Lib.HashMap Lib.LastWrite Lib.Runs Lib.Serial Lib.Vec

/-! ## What a query hits -/

/-- The record of a span of which only some strings are known. -/
def Sighting.record {κ : Type} (keys services : String → Bool) (x : Sighting κ) : SpanRecord where
  name := x.name
  service := x.service.filter services
  status_code := x.status_code
  start_time_unix_nano := x.start_time_unix_nano
  end_time_unix_nano := x.end_time_unix_nano
  attributes := x.attributes.filter fun kv => keys kv.1

/-- A term hits a record if it holds of it and its key is known. -/
def QueryTerm.hits (keys : String → Bool) (r : SpanRecord) : QueryTerm → Bool
  | .attr op key raw => keys key && (QueryTerm.attr op key raw).holds r
  | q => q.holds r

/-- A query is its terms and the texts that were dropped, whatever the store. -/
def Parses (query : String) (qs : List QueryTerm) (dropped_terms : List String) : Prop :=
  ∀ s, parse_query query s = (qs.map (QueryTerm.resolve s), dropped_terms)

/-- The texts that are dropped do not depend on the store. -/
theorem parse_tokens_dropped (tokens : List Token) (s s' : Store) :
    (parse_tokens s tokens).2 = (parse_tokens s' tokens).2 := by
  induction tokens with
  | nil => rfl
  | cons token tokens ih =>
    rw [parse_tokens, parse_tokens]
    dsimp only
    by_cases hopen : token.unterminated = true
    · rw [if_pos hopen, if_pos hopen, ih]
    · rw [if_neg hopen, if_neg hopen]
      obtain ⟨q, hq⟩ | ⟨raw, hraw⟩ := parse_term_resolves token.text token.starts_quoted
      · rw [hq s, hq s']
        exact ih
      · rw [hraw s, hraw s', ih]

/-- Every query has its terms and its dropped texts. -/
theorem exists_parses (query : String) : ∃ qs dropped_terms, Parses query qs dropped_terms := by
  obtain ⟨qs, hqs⟩ := exists_terms query
  exact ⟨qs, (parse_query query (Store.new 0)).2, fun s =>
    Prod.ext (hqs s) (parse_tokens_dropped _ _ _)⟩

section Filter

variable {κ κ' : Type} [DecidableEq κ] [DecidableEq κ']

/-- What `get_filter` is to answer: nothing is found when there are no spans, and
else the indices, in increasing order, of the rows that all terms hit. -/
def show_filter (keys services : String → Bool) (spans : List (Sighting κ)) (qs : List QueryTerm)
    (dropped_terms : List String) : Response FilterResponse :=
  let last := lastWrites Sighting.key spans
  if spans = [] then .not_found
  else .ok
    { indices := (List.range last.length).filter fun i =>
        last[i]?.any fun x => qs.all (QueryTerm.hits keys (x.record keys services))
      dropped_terms }

theorem show_filter_rename {g : κ → κ'} (hg : Function.Injective g) (keys services : String → Bool)
    (spans : List (Sighting κ)) (qs : List QueryTerm) (dropped_terms : List String) :
    show_filter keys services (spans.map (Sighting.rename g)) qs dropped_terms
      = show_filter keys services spans qs dropped_terms := by
  have hkeys : ∀ x y : Sighting κ, (x.rename g).key = (y.rename g).key ↔ x.key = y.key :=
    fun x y => hg.eq_iff
  have hlast : lastWrites Sighting.key (spans.map (Sighting.rename g))
      = (lastWrites Sighting.key spans).map (Sighting.rename g) := lastWrites_map hkeys _
  have hrecord : ∀ x : Sighting κ, (x.rename g).record keys services = x.record keys services :=
    fun _ => rfl
  unfold show_filter
  simp only [hlast, List.map_eq_nil_iff, List.length_map, List.getElem?_map, Option.any_map,
    hrecord]

end Filter

/-- One term, of which the key need not be known. -/
theorem matches_hits {s : Store} {t : Trace} {i : ℕ} {ks services : List String} {span : NewSpan}
    (hkey : s.key_interner.Holds ks)
    (hshows : Store.Shows s t i (accepted s.key_interner.cap ks) services span) (q : QueryTerm) :
    (q.resolve s).matches t s i
      = some (q.hits (fun key => decide (key ∈ accepted s.key_interner.cap ks))
          (record_of (accepted s.key_interner.cap ks) services span)) := by
  cases q with
  | attr op key raw =>
    cases hid : s.attribute_key_id key with
    | none =>
      have hunknown : key ∉ accepted s.key_interner.cap ks := fun h =>
        Option.isSome_iff_ne_none.mp ((hkey.lookup_isSome key).mpr h) hid
      rw [QueryTerm.resolve, hid, QueryTerm.hits, decide_eq_false hunknown, Bool.false_and]
      rfl
    | some key_id =>
      have hknown : key ∈ accepted s.key_interner.cap ks :=
        (hkey.lookup_isSome key).mp (Option.isSome_of_eq_some hid)
      rw [QueryTerm.hits, decide_eq_true hknown, Bool.true_and]
      refine matches_holds hshows hkey _ fun op' key' raw' heq => ?_
      rw [(QueryTerm.attr.inj heq).2.1] at hid
      exact Option.isSome_of_eq_some hid
  | _ =>
    refine matches_holds hshows hkey _ fun op key raw heq => ?_
    cases heq

namespace Store

variable {m : ℕ} {es : List Event} {s : Store} {id : TraceId} {text : String}

/-- A trace is resident as long as something of it is left. -/
theorem resident_as_arrived (hs : exec step es (new m) = some s) (id : TraceId) :
    (s.trace id).isSome ↔ arrivals es (new m) id ≠ [] := by
  cases ht : s.trace id with
  | none =>
    refine iff_of_false (fun h => ?_) (not_not.mpr ((bare_of_run hs).absent id ht))
    cases h
  | some t =>
    refine iff_of_true rfl fun hnil => ?_
    have hpos := span_count_pos hs ht
    rw [← (mapM_range_eq_some.mp (rows_as_arrived hs ht)).1, hnil] at hpos
    exact absurd hpos (Nat.lt_irrefl 0)

/-- **What `get_filter` answers**, below the attribute limit. -/
theorem get_filter_as_sent (hs : exec step es (new m) = some s) (hsmall : attrs_sent es < 2 ^ 32)
    (hid : TraceId.from_hex text = some id) {q : Option String} {qs : List QueryTerm}
    {dropped_terms : List String} (hparse : Parses (q.getD "") qs dropped_terms)
    {response : Response FilterResponse} (h : s.get_filter text q = some response) :
    ∃ lost, (lost = 0 ∨ 0 < s.counters.evicted_traces)
      ∧ response = show_filter (interned (keys_shown es)) (interned (services_shown es))
          (((sent_to es id).drop lost).map NewSpan.sighting) qs dropped_terms := by
  obtain ⟨lost, hlost, hdrop⟩ := arrivals_of_sent hs id
  refine ⟨lost, hlost, ?_⟩
  have hkeys : ∀ x y : NewSpan, x.sighting.key = y.sighting.key ↔ x.span_id = y.span_id :=
    fun x y => Iff.rfl
  have hbelow : AttrsBelow (new m) es := AttrsBelow.of_sent hsmall
  have hholds := holds_of_run hs hbelow
  rw [hdrop, show_filter, lastWrites_map hkeys]
  simp only [List.map_eq_nil_iff, List.length_map, List.getElem?_map, Option.any_map]
  rw [get_filter, hid] at h
  dsimp only at h
  cases ht : s.trace id with
  | none =>
    rw [ht] at h
    rw [if_pos (hholds.absent id ht)]
    exact (Option.some.inj h).symm
  | some t =>
    rw [ht] at h
    have hcount : t.span_count = (lastWrites NewSpan.span_id (arrivals es (new m) id)).length := by
      rw [Trace.span_count, (hholds.resident id t ht).columns.span_ids, List.length_map]
    rw [if_neg ((resident_as_arrived hs id).mp (Option.isSome_of_eq_some ht))]
    dsimp only at h
    rw [filter_trace_eq, hparse s] at h
    -- on a row, the terms hit what came last under its id
    have hterms : ∀ i < t.span_count,
        ((qs.map (QueryTerm.resolve s)).allM fun term : Term => term.matches t s i)
          = some ((lastWrites NewSpan.span_id (arrivals es (new m) id))[i]?.any fun span =>
              qs.all (QueryTerm.hits (interned (keys_shown es)) (span.sighting.record
                (interned (keys_shown es)) (interned (services_shown es))))) := by
      intro i hi
      obtain ⟨span, hspan⟩ : ∃ span,
          (lastWrites NewSpan.span_id (arrivals es (new m) id))[i]? = some span :=
        Option.isSome_iff_exists.mp (by simpa [← hcount] using hi)
      have hshows := hholds.shows ht (hbelow.last hs ht) hspan
      rw [← hholds.key_cap] at hshows
      rw [hspan]
      refine allM_map_of_forall fun q _ => ?_
      have hhits := matches_hits hholds.key hshows q
      rw [hholds.key_cap] at hhits
      exact hhits
    have hindices := matching_indices_eq_some.mpr
      ⟨fun i hi => Option.isSome_of_eq_some (hterms i (List.mem_range.mp hi)), rfl⟩
    rw [hindices, Option.map_some, Option.map_some, Option.some.injEq] at h
    rw [← h, ← hcount]
    refine congrArg Response.ok (congrArg (FilterResponse.mk · dropped_terms) ?_)
    refine List.filter_congr fun i hi => ?_
    simp only [Hits, hterms i (List.mem_range.mp hi), Option.some.injEq, Bool.decide_eq_true]

/-- The entry of a resident trace sums up the rows of the spans that arrived. -/
theorem summarize_as_arrived (hs : exec step es (new m) = some s) {t : Trace}
    (ht : s.trace id = some t) :
    s.summarize id t = some (summary_of_rows id (show_rows (interned (services_shown es))
      ((arrivals es (new m) id).map NewSpan.sighting))) := by
  -- attributes are not read, so the trace may be taken without them
  obtain ⟨u, hu, hin⟩ := bare_in_range hs ht
  have hservice : s.forget_keys.service_name = s.service_name := rfl
  have hrows : s.forget_keys.rows u = s.rows t := rows_bare hservice hu
  rw [← summarize_bare hservice id hu]
  exact summarize_rows hin (hrows.trans (rows_as_arrived hs ht)) id

/-- **What `list_traces` answers**: one entry for each trace of which something is
left, which sums up its rows. -/
theorem list_traces_as_sent (hs : exec step es (new m) = some s) {order : TraceOrder}
    {l : List TraceSummary} (h : s.list_traces order = some l) :
    ∃ (lost : TraceId → ℕ) (ids : List TraceId),
      (∀ id, lost id = 0 ∨ 0 < s.counters.evicted_traces) ∧ ids.Nodup
        ∧ (∀ id, id ∈ ids ↔ (sent_to es id).drop (lost id) ≠ [])
        ∧ l = ids.map fun id => summary_of_rows id (show_rows (interned (services_shown es))
            (((sent_to es id).drop (lost id)).map NewSpan.sighting)) := by
  choose lost hlost hdrop using arrivals_of_sent hs
  refine ⟨lost, (order.iter s.traces).map Sigma.fst, hlost, order.keys_nodup _, fun id => ?_, ?_⟩
  · rw [hdrop, ← resident_as_arrived hs, List.mem_map, Option.isSome_iff_exists]
    constructor
    · rintro ⟨⟨id', t⟩, hmem, rfl⟩
      exact ⟨t, order.mem_iter_lookup.mp hmem⟩
    · rintro ⟨t, ht⟩
      exact ⟨⟨id, t⟩, order.mem_iter_lookup.mpr ht, rfl⟩
  · have hentries := mapM_of_forall fun e (he : e ∈ order.iter s.traces) =>
      summarize_as_arrived hs (order.mem_iter_lookup.mp he)
    rw [list_traces, hentries, Option.some.injEq] at h
    rw [← h, List.map_map]
    refine List.map_congr_left fun e _ => ?_
    rw [Function.comp_apply, hdrop]

end Store

/-! ## The answers -/

namespace Server

variable {decoders : Decoders} {cfg : IngestConfig} {m : ℕ} {actions : List ServerAction}
  {s : Server}

/-- **The answers of `list_traces` are what the wire said.** There is one entry for
each trace of which well-formed spans were on the wire, as far as the batches of the
calls that sent first had been applied and what was sent has not been evicted; the
entry sums up the rows that `get_trace` would have shown. -/
theorem list_as_sent (h : exec (step decoders cfg) actions (start (Store.new m)) = some s)
    {i : ℕ} {call : ApiCall} {l : List TraceSummary} (hi : s.requests[i]? = some call)
    (hrequest : call.request = .list_traces) (hstate : call.state = .answered (.traces l)) :
    ∃ r, (i, r) ∈ reads decoders cfg actions (start (Store.new m)) ∧
      let sent := wire_at decoders cfg actions (Store.new m) s r
      ∃ (lost : TraceId → ℕ) (ids : List TraceId),
        (∀ id, lost id = 0 ∨ 0 < r.state.counters.evicted_traces) ∧ ids.Nodup
          ∧ (∀ id, id ∈ ids ↔ (of_trace id sent).drop (lost id) ≠ [])
          ∧ l = ids.map fun id => summary_of_rows id (show_rows (interned (services_of sent))
              (((of_trace id sent).drop (lost id)).map wire_sighting)) := by
  obtain ⟨r, hr, order, hserve⟩ :=
    answered_from_read h hi hstate (by rw [hrequest]; nofun) nofun
  rw [hrequest, Store.serve] at hserve
  obtain ⟨_, hlist, hsame⟩ := answered_of_elim hserve
  obtain rfl := ApiAnswer.traces.inj hsame
  obtain ⟨es, hes, hconverts, _⟩ := read_as_sent h hr
  obtain ⟨lost, ids, hlost, honce, hids, hl⟩ := Store.list_traces_as_sent hes hlist
  refine ⟨r, hr, lost, ids, hlost, honce, fun id => ?_, ?_⟩
  · have hlength := congrArg List.length (sightings_agree hconverts id (lost id))
    rw [List.length_map, List.length_map, List.length_map] at hlength
    rw [hids, ← List.length_pos_iff, ← List.length_pos_iff, wire_at, hlength]
  · rw [hl]
    refine List.map_congr_left fun id _ => ?_
    rw [wire_at, services_agree hconverts, sightings_agree hconverts,
      show_rows_rename bytes_injective]

/-- **The answers of `get_filter` are what the wire said**, as long as the requests
carry fewer attributes than an offset can count: the indices of the rows of which
all terms of the query hold, and the texts that are no terms. -/
theorem filter_as_sent (h : exec (step decoders cfg) actions (start (Store.new m)) = some s)
    (hsmall : (s.exports.ingest.calls.map (AcceptCall.attributes cfg)).sum < 2 ^ 32)
    {i : ℕ} {call : ApiCall} {text : String} {q : Option String} {id : TraceId}
    {response : Response FilterResponse} (hi : s.requests[i]? = some call)
    (hrequest : call.request = .get_filter text q) (hid : TraceId.from_hex text = some id)
    (hstate : call.state = .answered (.filter response)) :
    ∃ qs dropped_terms, Parses (q.getD "") qs dropped_terms
      ∧ ∃ r, (i, r) ∈ reads decoders cfg actions (start (Store.new m)) ∧
        let sent := wire_at decoders cfg actions (Store.new m) s r
        ∃ lost, (lost = 0 ∨ 0 < r.state.counters.evicted_traces)
          ∧ response = show_filter (interned (keys_of sent)) (interned (services_of sent))
              (((of_trace id sent).drop lost).map wire_sighting) qs dropped_terms := by
  obtain ⟨qs, dropped_terms, hparse⟩ := exists_parses (q.getD "")
  obtain ⟨r, hr, order, hserve⟩ :=
    answered_from_read h hi hstate (by rw [hrequest]; nofun) nofun
  rw [hrequest, Store.serve] at hserve
  obtain ⟨_, hget, hsame⟩ := answered_of_elim hserve
  obtain rfl := ApiAnswer.filter.inj hsame
  obtain ⟨es, hes, hconverts, hbound⟩ := read_as_sent h hr
  have hfew : Store.attrs_sent es < 2 ^ 32 := by
    refine lt_of_le_of_lt hbound (lt_of_le_of_lt ?_ hsmall)
    exact Ingest.attributes_applied (inner_run h) hsmall
  obtain ⟨lost, hlost, hshows⟩ := Store.get_filter_as_sent hes hfew hid hparse hget
  refine ⟨qs, dropped_terms, hparse, r, hr, lost, hlost, ?_⟩
  rw [wire_at, keys_agree hconverts, services_agree hconverts, sightings_agree hconverts,
    show_filter_rename bytes_injective]
  exact hshows

/-- The list as it was shown. -/
def two_names_list : Option (List TraceSummary) :=
  match two_names_end.answer_of 2 with
  | some (.traces l) => some l
  | _ => none

/-- What its query hit. -/
def two_names_hits : Option (Response FilterResponse) :=
  match two_names_end.answer_of 3 with
  | some (.filter response) => some response
  | _ => none

theorem list_as_sent_two_names :
    ∃ (r : Read Store) (lost : TraceId → ℕ) (ids : List TraceId) (l : List TraceSummary),
        (2, r) ∈ reads Exports.two_bodies Ingest.small_channel two_names (start (Store.new 1000))
      ∧ (∀ id, lost id = 0 ∨ 0 < r.state.counters.evicted_traces)
      ∧ (∀ id, id ∈ ids ↔ (of_trace id (two_names_wire r)).drop (lost id) ≠ [])
      ∧ two_names_list = some l ∧ l.map (·.span_count) = [1]
      ∧ l = ids.map fun id => summary_of_rows id
          (show_rows (interned (services_of (two_names_wire r)))
            (((of_trace id (two_names_wire r)).drop (lost id)).map wire_sighting)) := by
  have hshown : two_names_list.map (fun l => l.map (·.span_count)) = some [1] := by
    decide +kernel
  obtain ⟨l, hl, hcount⟩ := Option.map_eq_some_iff.mp hshown
  have hanswer : two_names_end.answer_of 2 = some (.traces l) := by
    rw [two_names_list] at hl
    split at hl
    · rename_i hanswer
      rw [hanswer, Option.some.inj hl]
    · cases hl
  obtain ⟨call, hcall, hstate⟩ := answer_of_eq_some hanswer
  have hrequest : two_names_end.requests[2]?.map (·.request) = some .list_traces := by
    decide +kernel
  rw [hcall, Option.map_some, Option.some.injEq] at hrequest
  obtain ⟨r, hr, lost, ids, hlost, -, hids, hlist⟩ :=
    list_as_sent two_names_exec hcall hrequest hstate
  exact ⟨r, lost, ids, l, hr, hlost, hids, hl, hcount, hlist⟩

theorem filter_as_sent_two_names :
    ∃ qs r lost, Parses "a=true gone!=1 status=q" qs ["status=q"]
      ∧ (3, r) ∈ reads Exports.two_bodies Ingest.small_channel two_names (start (Store.new 1000))
      ∧ (lost = 0 ∨ 0 < r.state.counters.evicted_traces)
      ∧ .ok { indices := [], dropped_terms := ["status=q"] }
        = show_filter (interned (keys_of (two_names_wire r)))
            (interned (services_of (two_names_wire r)))
            (((of_trace (tid 1) (two_names_wire r)).drop lost).map wire_sighting) qs ["status=q"] := by
  have hresponse : two_names_hits = some (.ok { indices := [], dropped_terms := ["status=q"] }) := by
    decide +kernel
  have hanswer : two_names_end.answer_of 3
      = some (.filter (.ok { indices := [], dropped_terms := ["status=q"] })) := by
    rw [two_names_hits] at hresponse
    split at hresponse
    · rename_i hanswer
      rw [hanswer, Option.some.inj hresponse]
    · cases hresponse
  obtain ⟨call, hcall, hstate⟩ := answer_of_eq_some hanswer
  have hrequest : two_names_end.requests[3]?.map (·.request)
      = some (.get_filter (tid 1).to_hex (some "a=true gone!=1 status=q")) := by decide +kernel
  rw [hcall, Option.map_some, Option.some.injEq] at hrequest
  obtain ⟨qs, dropped_terms, hparse, r, hr, lost, hlost, hshows⟩ := filter_as_sent two_names_exec
    (by decide +kernel) hcall hrequest (TraceId.from_hex_to_hex _) hstate
  have hdropped : dropped_terms = ["status=q"] := by
    have hquery : (parse_query "a=true gone!=1 status=q" (Store.new 0)).2 = dropped_terms :=
      congrArg Prod.snd (hparse (Store.new 0))
    rw [← hquery]
    decide +kernel
  rw [hdropped] at hparse hshows
  exact ⟨qs, r, lost, hparse, hr, hlost, hshows⟩

end Server

end Spanfall
