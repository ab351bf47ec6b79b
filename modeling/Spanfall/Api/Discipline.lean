/-
`Discipline.lean` -- what the trace list and the payload do not say.

`src/api/traces.rs` keeps attributes out of both on purpose; they are fetched
one span at a time. The handlers read no attribute column, and no column that
they do read depends on one ([`Trace.insert_bare`]), so two runs that send the
same spans with other attributes are answered alike ([`attributes_do_not_show`]).
The generation is part of the payload, and it counts evictions; the budget is
charged for attributes, so the two runs must evict nothing.
-/
import Spanfall.Api.Reorder
import Spanfall.Api.Total
import Spanfall.Api.View
import Spanfall.Store.Bare

set_option autoImplicit false

namespace Spanfall

open Lib.HashMap Lib.LastWrite Lib.Runs Lib.Vec

namespace Store

variable {m m' : ℕ} {es es' : List Event} {s s' : Store} {t t' : Trace} {id : TraceId}

/-! ## The handlers read no attribute -/

theorem trace_payload_bare (h : s'.service_name = s.service_name) (ht : t'.bare = t.bare) :
    s'.trace_payload t' = s.trace_payload t := by
  have hrow : s'.push_row t'.bare = s.push_row t.bare := by
    funext acc idx
    rw [push_row, push_row, h, ht]
  change s'.trace_payload t'.bare = s.trace_payload t.bare
  rw [trace_payload, trace_payload, hrow, ht]

theorem summarize_bare (h : s'.service_name = s.service_name) (id : TraceId)
    (ht : t'.bare = t.bare) : s'.summarize id t' = s.summarize id t := by
  change s'.summarize id t'.bare = s.summarize id t.bare
  rw [summarize, summarize, trace_services, trace_services, h, ht]

/-- A store whose key interner is forgotten, to read a trace without
attributes with. -/
def forget_keys (s : Store) : Store := { s with key_interner := Interner.new GLOBAL_INTERNER_CAP }

/-- What the handlers read of a resident trace is in range, below the attribute
limit or past it. -/
theorem bare_in_range (hs : exec step es (new m) = some s) (ht : s.trace id = some t) :
    ∃ u : Trace, u.bare = t.bare ∧ InRange s.forget_keys u := by
  obtain ⟨_, hservices, _⟩ := interners_of_run hs
  obtain ⟨u, hu, hholds⟩ := (bare_of_run hs).resident id t ht
  have hsmall : u.attr_keys.length < 2 ^ 32 := by
    rw [hholds.no_attrs]
    decide
  exact ⟨u, hu, Trace.Holds.in_range (s := s.forget_keys) hholds (Interner.new_holds (by decide))
    hservices hsmall⟩

/-- **The list and the payload are always answered**, past the attribute limit
too. -/
theorem traces_answered (hs : exec step es (new m) = some s) :
    (∀ id, (s.get_trace id).isSome) ∧ ∀ order, (s.list_traces order).isSome := by
  have hservice : s.forget_keys.service_name = s.service_name := rfl
  refine ⟨fun id => ?_, fun order => ?_⟩
  · unfold get_trace
    cases TraceId.from_hex id with
    | none => rfl
    | some trace_id =>
      dsimp only
      cases ht : s.trace trace_id with
      | none => rfl
      | some t =>
        obtain ⟨u, hu, hin⟩ := bare_in_range hs ht
        have hpayload := trace_payload_bare hservice hu
        rw [Option.isSome_map, ← hpayload]
        exact hin.trace_payload_isSome
  · apply mapM_isSome
    intro e he
    obtain ⟨u, hu, hin⟩ := bare_in_range hs (order.mem_iter_lookup.mp he)
    have hsummary := summarize_bare hservice e.1 hu
    rw [← hsummary]
    exact hin.summarize_isSome e.1

/-! ## Two runs -/

/-- The spans sent, without their attributes. -/
def sent_bare (es : List Event) : List (TraceId × NewSpan) :=
  (sent es).map fun p => (p.1, p.2.bare)

theorem sent_to_bare (es : List Event) (id : TraceId) :
    (sent_to es id).map NewSpan.bare
      = (sent_bare es).filterMap fun p => if p.1 = id then some p.2 else none := by
  rw [sent_to, sent_bare, List.map_filterMap, List.filterMap_map]
  congr 1
  funext p
  by_cases hid : p.1 = id <;> simp [hid]

/-- The services that are presented are those of the spans. -/
theorem services_shown_sent (es : List Event) :
    services_shown es = (sent_bare es).flatMap fun p => p.2.service_name.toList := by
  rw [services_shown, sent_bare, sent, List.flatMap_map, List.flatMap_assoc]
  apply List.flatMap_congr
  intro e _
  cases e with
  | insert trace_id span now => simp [Event.services, Event.sent, NewSpan.bare]
  | malformed count => rfl
  | sweep order => rfl

/-- What is resident stays so where nothing is evicted. -/
theorem stays_of_step {e : Event} (he : s.step e = some s')
    (hkept : s'.counters.evicted_traces = 0) (h : (s.trace id).isSome) : (s'.trace id).isSome := by
  cases e with
  | insert trace_id span now =>
    obtain ⟨t', htrace, _⟩ := step_insert he
    rw [htrace]
    by_cases hid : id = trace_id
    · rw [if_pos hid]
      rfl
    · rw [if_neg hid]
      exact h
  | malformed count =>
    obtain rfl := Option.some.inj he
    exact h
  | sweep order =>
    rw [(kept_of_step he hkept).2 order rfl]
    exact h

/-- So every trace is in its first incarnation. -/
theorem first_generation (hs : exec step es (new m) = some s)
    (hkept : s.counters.evicted_traces = 0) (id : TraceId) :
    s.evicted_generations.lookup id = none ∧ ∀ t, s.trace id = some t → t.generation = 0 := by
  refine exec_induction (P := fun _ s => s.counters.evicted_traces = 0 →
    s.evicted_generations.lookup id = none ∧ ∀ t, s.trace id = some t → t.generation = 0)
    (fun _ => ⟨rfl, fun t ht => ?_⟩) (fun es s e s' _ ih he hkept => ?_) hs hkept
  · rw [new_trace] at ht
    cases ht
  · obtain ⟨hnone, hgen⟩ := ih (kept_of_step he hkept).1
    cases trace_step he id with
    | untouched htrace hevicted =>
      rw [htrace, hevicted]
      exact ⟨hnone, hgen⟩
    | grown t t' ht ht' hgeneration _ hevicted =>
      refine ⟨hevicted.trans hnone, fun u hu => ?_⟩
      rw [← Option.some.inj (ht'.symm.trans hu), hgeneration]
      exact hgen t ht
    | evicted t ht hgone _ =>
      have hstays := stays_of_step he hkept (Option.isSome_of_eq_some ht)
      rw [hgone] at hstays
      cases hstays
    | created t' _ ht' hgeneration hevicted =>
      refine ⟨hevicted, fun u hu => ?_⟩
      rw [← Option.some.inj (ht'.symm.trans hu), hgeneration, next_generation, hnone]

/-- A trace is resident when it was sent anything. -/
theorem resident_of_kept (hs : exec step es (new m) = some s)
    (hkept : s.counters.evicted_traces = 0) (id : TraceId) :
    (s.trace id).isSome ↔ sent_to es id ≠ [] := by
  obtain ⟨harrived, habsent⟩ := arrivals_of_kept hs hkept id
  cases ht : s.trace id with
  | none => simp [habsent ht]
  | some t =>
    -- a trace without a row would have no span either
    refine ⟨fun _ hnil => ?_, fun _ => rfl⟩
    obtain ⟨u, hu, hholds⟩ := (bare_of_run hs).resident id t ht
    rw [harrived, hnil] at hholds
    have hids : t.span_ids = u.span_ids := congrArg (·.span_ids) hu.symm
    have hpos := span_count_pos hs ht
    rw [Trace.span_count, hids, hholds.columns.span_ids] at hpos
    exact absurd hpos (Nat.lt_irrefl 0)

/-- Interners that were shown the same are the same to read. -/
theorem interners_agree {I J : Interner} {ss : List String} (hI : I.Holds ss) (hJ : J.Holds ss)
    (hcap : J.cap = I.cap) : J.lookup = I.lookup ∧ J.get = I.get := by
  rw [← List.append_nil ss] at hJ
  obtain ⟨hvalues, hmap⟩ := hI.values_absorb hJ hcap nofun
  refine ⟨funext fun name => ?_, funext fun id => ?_⟩
  · rw [Interner.lookup, hmap]
    rfl
  · rw [Interner.get, hvalues]
    rfl

/-- **Traces that were sent the same but for attributes** are the same but for
attributes. -/
theorem bare_agree (hsent : sent_bare es' = sent_bare es) (hs : exec step es (new m) = some s)
    (hs' : exec step es' (new m') = some s') (hkept : s.counters.evicted_traces = 0)
    (hkept' : s'.counters.evicted_traces = 0) (id : TraceId) :
    (s'.trace id).map Trace.bare = (s.trace id).map Trace.bare := by
  have hto : (sent_to es' id).map NewSpan.bare = (sent_to es id).map NewSpan.bare := by
    rw [sent_to_bare, sent_to_bare, hsent]
  have hresident : (s'.trace id).isSome ↔ (s.trace id).isSome := by
    rw [resident_of_kept hs' hkept', resident_of_kept hs hkept, ne_eq, ne_eq,
      ← List.map_eq_nil_iff, hto, List.map_eq_nil_iff]
  obtain ⟨_, hservices, hcap⟩ := interners_of_run hs
  obtain ⟨_, hservices', hcap'⟩ := interners_of_run hs'
  rw [services_shown_sent, hsent, ← services_shown_sent] at hservices'
  obtain ⟨hlookup, _⟩ := interners_agree hservices hservices' (hcap'.trans hcap.symm)
  cases ht : s.trace id with
  | none =>
    rw [ht] at hresident
    rw [Option.not_isSome_iff_eq_none.mp fun h => Bool.false_ne_true (hresident.mp h)]
  | some t =>
    rw [ht] at hresident
    obtain ⟨t', ht'⟩ := Option.isSome_iff_exists.mp (hresident.mpr rfl)
    rw [ht', Option.map_some, Option.map_some]
    obtain ⟨u, hu, hholds⟩ := (bare_of_run hs).resident id t ht
    obtain ⟨u', hu', hholds'⟩ := (bare_of_run hs').resident id t' ht'
    rw [(arrivals_of_kept hs hkept id).1] at hholds
    rw [(arrivals_of_kept hs' hkept' id).1] at hholds'
    -- both companions hold the same spans, under interners that agree
    have hholds'' : u'.Holds (Interner.new GLOBAL_INTERNER_CAP) s.service_interner
        ((sent_to es' id).map NewSpan.bare) :=
      hholds'.congr_interners (fun _ _ _ _ => rfl) fun _ _ n _ => by rw [hlookup]
    have hid : u'.trace_id = u.trace_id :=
      (congrArg (·.trace_id) hu').trans ((trace_id_of_run hs' id t' ht').trans
        ((trace_id_of_run hs id t ht).symm.trans (congrArg (·.trace_id) hu.symm)))
    have hgen : u'.generation = u.generation :=
      (congrArg (·.generation) hu').trans (((first_generation hs' hkept' id).2 t' ht').trans
        (((first_generation hs hkept id).2 t ht).symm.trans (congrArg (·.generation) hu.symm)))
    have hsame := Trace.Holds.unique hholds hholds'' (by rw [hto]) (by rw [hto]) hid hgen
    have hbare : u'.forget_activity.bare = u.forget_activity.bare := by rw [hsame]
    rw [← hu, ← hu']
    exact congrArg some hbare

/-- **The payload and the list say nothing about attributes.** Two runs that
send the same spans but for their attributes, and evict nothing, are answered
alike: the same payload under every id, and the same summaries, whatever the
orders the maps are walked in. -/
theorem attributes_do_not_show (hsent : sent_bare es' = sent_bare es)
    (hs : exec step es (new m) = some s) (hs' : exec step es' (new m') = some s')
    (hkept : s.counters.evicted_traces = 0) (hkept' : s'.counters.evicted_traces = 0) :
    (∀ id, (s.get_trace id).isSome ∧ s'.get_trace id = s.get_trace id)
      ∧ ∀ order order', ∃ l l', s.list_traces order = some l ∧ s'.list_traces order' = some l'
          ∧ l.Perm l' := by
  obtain ⟨hanswered, hlisted⟩ := traces_answered hs
  have htraces := bare_agree hsent hs hs' hkept hkept'
  have hservice : s'.service_name = s.service_name := by
    obtain ⟨_, hservices, hcap⟩ := interners_of_run hs
    obtain ⟨_, hservices', hcap'⟩ := interners_of_run hs'
    rw [services_shown_sent, hsent, ← services_shown_sent] at hservices'
    exact (interners_agree hservices hservices' (hcap'.trans hcap.symm)).2
  refine ⟨fun id => ⟨hanswered id, ?_⟩, fun order order' => ?_⟩
  · exact get_trace_map (f := Trace.bare) (fun _ _ ht => trace_payload_bare hservice ht) htraces id
  · have hlists := list_traces_map (f := Trace.bare) (fun _ _ => rfl)
      (fun id _ => (summarize_bare hservice id rfl).symm) htraces order order'
    obtain ⟨l, hl⟩ := Option.isSome_iff_exists.mp (hlisted order)
    rw [hl, Option.map_some, Option.map_eq_some_iff] at hlists
    obtain ⟨l', hl', hperm⟩ := hlists
    exact ⟨l, l', hl, hl', Multiset.coe_eq_coe.mp hperm.symm⟩

/-- Two spans of one trace, the first sent again, with attributes. -/
def described : List Event :=
  let a := { Trace.span 1 none "a" with
    service_name := some "web", attributes := [("k", .int 1), ("k", .int 2)] }
  let b := { Trace.span 2 (some 1) "b" with attributes := [("path", .str "/")] }
  [.insert (tid 1) b 0, .insert (tid 1) a 1, .insert (tid 1) { a with attributes := [] } 2]

/-- The same without. -/
def undescribed : List Event :=
  let a := { Trace.span 1 none "a" with service_name := some "web" }
  let b := Trace.span 2 (some 1) "b"
  [.insert (tid 1) b 0, .insert (tid 1) a 1, .insert (tid 1) a 2]

theorem described_runs : (exec step described (new 10000)).isSome := by decide +kernel

theorem undescribed_runs : (exec step undescribed (new 10000)).isSome := by decide +kernel

theorem attributes_do_not_show_described :
    ∃ s s', exec step described (new 10000) = some s
      ∧ exec step undescribed (new 10000) = some s' ∧ ∀ id, s'.get_trace id = s.get_trace id := by
  have hsent : sent_bare undescribed = sent_bare described := by decide +kernel
  obtain ⟨hpayload, _⟩ := attributes_do_not_show hsent (Option.some_get described_runs).symm
    (Option.some_get undescribed_runs).symm (by decide +kernel) (by decide +kernel)
  exact ⟨_, _, (Option.some_get described_runs).symm, (Option.some_get undescribed_runs).symm,
    fun id => (hpayload id).2⟩

end Store

end Spanfall
