/-
`Retry.lean` -- a batch applied twice.

A retry arrives as the same batch once more. If neither application evicts,
every span of the second one finds its id resident: it overwrites a row that
the last span of that id in the batch overwrites again, so the rows end as they
were ([`Lib.LastWrite.lastWrites_replay`]), no key or service is new to the
interners, and the links follow first arrivals, of which there are none.
-/
import Spanfall.Api.View
import Spanfall.Store.Hex
import Spanfall.Store.Wrap
import Spanfall.Store.Writer

set_option autoImplicit false

namespace Spanfall

open Lib.HashMap Lib.LastWrite Lib.Runs Lib.Vec

namespace Store

/-- Applying `batch` to `s` evicted nothing: what was resident or received a
span is still there. -/
def Kept (s : Store) (batch : SpanBatch) (s' : Store) : Prop :=
  ∀ id, (s.trace id).isSome ∨ (∃ p ∈ batch.spans, p.1 = id) → (s'.trace id).isSome

/-- Every resident trace has consistent links. -/
def Linked (s : Store) : Prop := ∀ id t, s.trace id = some t → ∃ arrived, Links t (firsts arrived)

variable {s s' s₀ s₁ s₂ : Store} {batch : SpanBatch} {now : UInt64} {order : TraceOrder}

theorem Holds.linked {ks ss : List String} {arrived : TraceId → List NewSpan}
    (h : s.Holds ks ss arrived) : s.Linked :=
  fun id t ht => ⟨arrived id, (h.resident id t ht).links⟩

/-- An insert of a span whose id is resident: one more duplicate, and nothing
else is counted. -/
theorem step_insert_duplicate {trace_id : TraceId} {span : NewSpan} {t : Trace} (hl : s.Linked)
    (ht : s.trace trace_id = some t) (hin : span.span_id ∈ t.span_ids)
    (h : s.step (.insert trace_id span now) = some s') :
    s'.Linked ∧ s'.counters.duplicate_span = s.counters.duplicate_span + 1
      ∧ s'.counters.late_span_after_eviction = s.counters.late_span_after_eviction
      ∧ s'.counters.evicted_traces = s.counters.evicted_traces := by
  obtain ⟨⟨s₁, out⟩, hins, rfl⟩ := Option.map_eq_some_iff.mp h
  obtain ⟨t', o, hins, htraces, _, _, _, hcounters, _⟩ := insert_cases hins
  obtain ⟨arrived, hlinks⟩ := hl trace_id t ht
  have hlookup : s.traces.lookup trace_id = some t := ht
  rw [entry, hlookup] at hins
  obtain ⟨_, _, _, _, _, hdup⟩ := Trace.insert_frame hins
  rw [(hlinks.index_isSome _).mpr hin] at hdup
  refine ⟨fun id u hu => ?_, ?_, ?_, ?_⟩
  · rw [trace_insert htraces] at hu
    by_cases hid : id = trace_id
    · rw [if_pos hid, Option.some.injEq] at hu
      exact hu ▸ ⟨_, hlinks.insert hins⟩
    · rw [if_neg hid] at hu
      exact hl id u hu
  · rw [hcounters, hdup]
    rfl
  · rw [hcounters, hlookup]
    rfl
  · rw [hcounters]

/-- Spans whose ids are all resident count as many duplicates as they are. -/
theorem inserts_duplicates {spans : List (TraceId × NewSpan)} (hl : s.Linked)
    (hin : ∀ p ∈ spans, ∃ t, s.trace p.1 = some t ∧ p.2.span_id ∈ t.span_ids)
    (h : exec step (spans.map fun p => .insert p.1 p.2 now) s = some s') :
    s'.counters.duplicate_span = s.counters.duplicate_span + spans.length
      ∧ s'.counters.late_span_after_eviction = s.counters.late_span_after_eviction
      ∧ s'.counters.evicted_traces = s.counters.evicted_traces := by
  induction spans generalizing s with
  | nil =>
    obtain rfl := Option.some.inj h
    exact ⟨rfl, rfl, rfl⟩
  | cons p spans ih =>
    rw [List.map_cons, exec_cons, Option.bind_eq_some_iff] at h
    obtain ⟨u, hu, h⟩ := h
    obtain ⟨t, ht, hid⟩ := hin p List.mem_cons_self
    obtain ⟨hl', hdup, hlate, hevicted⟩ := step_insert_duplicate hl ht hid hu
    -- the rest is still resident after the first insert
    have hin' : ∀ q ∈ spans, ∃ t, u.trace q.1 = some t ∧ q.2.span_id ∈ t.span_ids := by
      intro q hq
      obtain ⟨w, hw, hqid⟩ := hin q (List.mem_cons_of_mem _ hq)
      have hone : exec step ([p].map fun p => .insert p.1 p.2 now) s = some u := by
        rw [List.map_singleton, exec_cons, hu]
        rfl
      obtain ⟨w', hw', _, hids⟩ := (inserts_trace hone q.1).2.2 w hw
      exact ⟨w', hw', hids.subset hqid⟩
    obtain ⟨hdup', hlate', hevicted'⟩ := ih hl' hin' h
    rw [List.length_cons]
    exact ⟨by omega, hlate'.trans hlate, hevicted'.trans hevicted⟩

/-- A batch that evicts nothing ends where its inserts did. -/
theorem Kept.no_sweep (hk : Kept s batch s') (h : s.apply_batch batch now order = some s') :
    ∃ u, exec step (batch.inserts now) s = some u ∧ (∀ id, s'.trace id = u.trace id)
      ∧ s'.counters.duplicate_span = u.counters.duplicate_span
      ∧ s'.counters.late_span_after_eviction = u.counters.late_span_after_eviction
      ∧ s'.counters.evicted_traces = u.counters.evicted_traces := by
  obtain ⟨u, hu, hsweep⟩ := apply_batch_cases h
  have hswept := hsweep.swept
  obtain ⟨htrace, hcounters⟩ := hswept.of_kept fun id hid => by
    refine hk id ?_
    by_cases hin : ∃ p ∈ batch.spans, p.1 = id
    · exact Or.inr hin
    · have hsame := (inserts_trace hu id).1 fun p hp he => hin ⟨p, hp, he⟩
      exact Or.inl (hsame ▸ hid)
  exact ⟨u, hu, htrace, by rw [hcounters], by rw [hcounters], by rw [hcounters]⟩

/-- A batch that counts no eviction evicted nothing. -/
theorem Kept.of_evicted_traces (h : s.apply_batch batch now order = some s')
    (he : s'.counters.evicted_traces = s.counters.evicted_traces) : Kept s batch s' := by
  obtain ⟨u, hu, hsweep⟩ := apply_batch_cases h
  have hsame := hsweep.eq_of_evicted_traces (he.trans (inserts_counters hu).1.symm)
  intro id hid
  obtain ⟨_, hsent, hkept⟩ := inserts_trace hu id
  rw [hsame]
  obtain hid | hid := hid
  · obtain ⟨t, ht⟩ := Option.isSome_iff_exists.mp hid
    obtain ⟨t', ht', _⟩ := hkept t ht
    exact Option.isSome_of_eq_some ht'
  · obtain ⟨t', ht', _⟩ := hsent hid
    exact Option.isSome_of_eq_some ht'

theorem keys_shown_events (batch : SpanBatch) (now now' : UInt64) (order order' : TraceOrder) :
    keys_shown (batch.events now order) = keys_shown (batch.events now' order')
      ∧ services_shown (batch.events now order) = services_shown (batch.events now' order') := by
  unfold keys_shown services_shown SpanBatch.events SpanBatch.inserts
  simp only [List.flatMap_append, List.flatMap_map, List.flatMap_cons, List.flatMap_nil]
  exact ⟨rfl, rfl⟩

/-- Interners that have been shown everything before answer as before. -/
theorem interner_replayed {I J : Interner} {ks js : List String} (hI : I.Holds ks)
    (hJ : J.Holds (ks ++ js)) (hcap : J.cap = I.cap) (h : ∀ j ∈ js, j ∈ ks) :
    J.lookup = I.lookup ∧ J.get = I.get := by
  obtain ⟨hvalues, hmap⟩ := hI.values_absorb hJ hcap h
  refine ⟨funext fun k => ?_, funext fun id => ?_⟩
  · rw [Interner.lookup, Interner.lookup, hmap]
  · rw [Interner.get, Interner.get, hvalues]

/-- The second application of a batch shows nothing new. -/
theorem retried_batch_same_view {m : ℕ} {es : List Event} {now₁ now₂ : UInt64}
    {order₁ order₂ : TraceOrder} (h₀ : exec step es (new m) = some s₀)
    (h₁ : s₀.apply_batch batch now₁ order₁ = some s₁)
    (h₂ : s₁.apply_batch batch now₂ order₂ = some s₂)
    (hkept₁ : Kept s₀ batch s₁) (hkept₂ : Kept s₁ batch s₂)
    (hsmall : AttrsBelow (new m) (es ++ batch.events now₁ order₁ ++ batch.events now₂ order₂)) :
    SameView s₁ s₂ := by
  have hr₁ := exec_batch h₀ h₁
  have hr₂ := exec_batch hr₁ h₂
  have hh₁ := holds_of_run hr₁ hsmall.init
  have hh₂ := holds_of_run hr₂ hsmall
  obtain ⟨u, hu, htrace, _⟩ := hkept₂.no_sweep h₂
  -- no key and no service of the second pass is new
  obtain ⟨hkeys, hservices⟩ := keys_shown_events batch now₂ now₁ order₂ order₁
  have hkey₂ := hh₂.key
  have hsvc₂ := hh₂.service
  rw [keys_shown_append] at hkey₂
  rw [services_shown_append] at hsvc₂
  obtain ⟨hlookup, hget⟩ := interner_replayed hh₁.key hkey₂ (hh₂.key_cap.trans hh₁.key_cap.symm)
    fun k hk => by
      rw [keys_shown_append, ← hkeys]
      exact List.mem_append_right _ hk
  obtain ⟨hlookup', hget'⟩ := interner_replayed hh₁.service hsvc₂
    (hh₂.service_cap.trans hh₁.service_cap.symm) fun k hk => by
      rw [services_shown_append, ← hservices]
      exact List.mem_append_right _ hk
  refine { traces := fun id => ?_, attribute_key := hget, attribute_key_id := hlookup,
           service_name := hget' }
  cases ht₁ : s₁.trace id with
  | none =>
    have hother : ∀ p ∈ batch.spans, p.1 ≠ id := fun p hp he => by
      have := hkept₁ id (Or.inr ⟨p, hp, he⟩)
      rw [ht₁] at this
      cases this
    rw [htrace, (inserts_trace hu id).1 hother, ht₁]
  | some t₁ =>
    obtain ⟨t₂, ht₂, hgen, _⟩ := (inserts_trace hu id).2.2 t₁ ht₁
    rw [← htrace] at ht₂
    have harr₁ := arrivals_batch h₀ h₁ (Option.isSome_of_eq_some ht₁)
    have harr₂ := arrivals_batch hr₁ h₂ (Option.isSome_of_eq_some ht₂)
    have hold₁ : t₁.Holds s₂.key_interner s₂.service_interner
        (arrivals (es ++ batch.events now₁ order₁) (new m) id) :=
      (hh₁.resident id t₁ ht₁).congr_interners (fun _ _ kv _ => by rw [hlookup])
        fun _ _ n _ => by rw [hlookup']
    have hid : t₂.trace_id = t₁.trace_id :=
      (trace_id_of_run hr₂ id t₂ ht₂).trans (trace_id_of_run hr₁ id t₁ ht₁).symm
    -- the same rows, and no first arrival among the batch's spans
    have hlast : lastWrites NewSpan.span_id (arrivals (es ++ batch.events now₁ order₁
        ++ batch.events now₂ order₂) (new m) id)
        = lastWrites NewSpan.span_id (arrivals (es ++ batch.events now₁ order₁) (new m) id) := by
      rw [harr₂, harr₁, lastWrites_replay]
    have hfirst : firsts (arrivals (es ++ batch.events now₁ order₁
        ++ batch.events now₂ order₂) (new m) id)
        = firsts (arrivals (es ++ batch.events now₁ order₁) (new m) id) := by
      rw [harr₂, harr₁]
      refine firstWrites_absorb fun y hy => ?_
      rw [List.map_append]
      exact List.mem_append_right _ (List.mem_map_of_mem hy)
    rw [ht₂, Option.map_some, Option.map_some,
      hold₁.unique (hh₂.resident id t₂ ht₂) hlast hfirst hid hgen]

/-- **A retried batch is idempotent.** In a run below the attribute limit, if
neither application of a batch evicts, the second one changes no answer of the
Read API, counts every span of the batch as a duplicate and counts nothing
late or evicted. -/
theorem retried_batch_idempotent {m : ℕ} {es : List Event} {now₁ now₂ : UInt64}
    {order₁ order₂ : TraceOrder} (h₀ : exec step es (new m) = some s₀)
    (h₁ : s₀.apply_batch batch now₁ order₁ = some s₁)
    (h₂ : s₁.apply_batch batch now₂ order₂ = some s₂)
    (hkept₁ : Kept s₀ batch s₁) (hkept₂ : Kept s₁ batch s₂)
    (hsmall : AttrsBelow (new m) (es ++ batch.events now₁ order₁ ++ batch.events now₂ order₂)) :
    (∀ id, s₂.get_trace id = s₁.get_trace id)
      ∧ (∀ id idx, s₂.get_attributes id idx = s₁.get_attributes id idx)
      ∧ (∀ id q, s₂.get_filter id q = s₁.get_filter id q)
      ∧ (∀ order order', (s₂.list_traces order').map Multiset.ofList
          = (s₁.list_traces order).map Multiset.ofList)
      ∧ (∀ id, (s₂.trace id).map (·.span_ids) = (s₁.trace id).map (·.span_ids))
      ∧ s₂.counters.duplicate_span = s₁.counters.duplicate_span + batch.spans.length
      ∧ s₂.counters.late_span_after_eviction = s₁.counters.late_span_after_eviction
      ∧ s₂.counters.evicted_traces = s₁.counters.evicted_traces := by
  have hview := retried_batch_same_view h₀ h₁ h₂ hkept₁ hkept₂ hsmall
  have hh₁ := holds_of_run (exec_batch h₀ h₁) hsmall.init
  obtain ⟨u, hu, _, hdup, hlate, hevicted⟩ := hkept₂.no_sweep h₂
  -- the second pass meets only what the first one left
  have hagain : ∀ p ∈ batch.spans, ∃ t, s₁.trace p.1 = some t ∧ p.2.span_id ∈ t.span_ids := by
    intro p hp
    have hin := hkept₁ p.1 (Or.inr ⟨p, hp, rfl⟩)
    obtain ⟨t, ht⟩ := Option.isSome_iff_exists.mp hin
    refine ⟨t, ht, ((hh₁.resident p.1 t ht).links.resident_iff _).mpr ?_⟩
    rw [arrivals_batch h₀ h₁ hin, List.map_append]
    refine List.mem_append_right _ (List.mem_map_of_mem ?_)
    exact List.mem_map_of_mem (List.mem_filter.mpr ⟨hp, by simp⟩)
  obtain ⟨hdup', hlate', hevicted'⟩ := inserts_duplicates hh₁.linked hagain hu
  refine ⟨hview.get_trace, hview.get_attributes, hview.get_filter, hview.list_traces,
    fun id => ?_, hdup.trans hdup', hlate.trans hlate', hevicted.trans hevicted'⟩
  have := congrArg (Option.map (·.span_ids)) (hview.traces id)
  rwa [Option.map_map, Option.map_map] at this

/-- A batch that sends one span twice, with another parent and other
attributes, around a span of another trace. -/
def conflicting_batch : SpanBatch where
  spans := [(tid 1, { Trace.span 1 (some 2) "a" with attributes := [("k1", .bool true)] }),
    (tid 2, Trace.span 1 none "b"),
    (tid 1, { Trace.span 1 none "c" with attributes := [("k1", .int 1), ("k2", .int 2)] })]
  partial_batch := false
  malformed_span_count := 0

theorem conflicting_batch_applies :
    ((new 1000).apply_batch conflicting_batch 5 TraceOrder.by_id).isSome := by
  decide +kernel

theorem conflicting_batch_applies_again :
    ((Option.get _ conflicting_batch_applies).apply_batch conflicting_batch 3
      TraceOrder.by_id).isSome := by
  decide +kernel

theorem retried_batch_conflicting :
    ∃ s₁ s₂, (new 1000).apply_batch conflicting_batch 5 TraceOrder.by_id = some s₁
      ∧ s₁.apply_batch conflicting_batch 3 TraceOrder.by_id = some s₂
      ∧ (∀ id, s₂.get_trace id = s₁.get_trace id)
      ∧ s₂.counters.duplicate_span = s₁.counters.duplicate_span + 3 := by
  have h₁ := (Option.some_get conflicting_batch_applies).symm
  have h₂ := (Option.some_get conflicting_batch_applies_again).symm
  have h₀ : exec step [] (new 1000) = some (new 1000) := rfl
  obtain ⟨htrace, _, _, _, _, hdup, _⟩ := retried_batch_idempotent h₀ h₁ h₂
    (Kept.of_evicted_traces h₁ (by decide +kernel))
    (Kept.of_evicted_traces h₂ (by decide +kernel)) (AttrsBelow.of_sent (by decide +kernel))
  exact ⟨_, _, h₁, h₂, htrace, hdup⟩

/-! ## Past the attribute limit

The rows in front of the last one grow in the middle of a batch until the last
row starts at `2 ^ 32`, and shrink again before its end. If the last row is sent in
between, what is sent is spliced in at zero, into the first row. On its first
application the batch finds fewer attributes, and stays below. -/

/-- The rows `front`, two that a batch writes, with `p` and `q` attributes, one
with `w`, and the last one. -/
def grown (front : List NewSpan) (w p q : ℕ) : List NewSpan :=
  front ++ [filler p front.length, filler q (front.length + 1), filler w (front.length + 2),
    narrow (front.length + 3)]

/-- Grows the second of the two, sends the last row, shrinks the second and
leaves the first one grown. -/
def growing_batch (w n : ℕ) : SpanBatch where
  spans := [(tid 1, filler w (n + 1)), (tid 1, narrow (n + 3)), (tid 1, filler 0 (n + 1)),
    (tid 1, filler w n)]
  partial_batch := false
  malformed_span_count := 0

section Grown

variable {front R : List NewSpan} {w p q : ℕ} {span : NewSpan}

theorem attrs_before_grown (k : ℕ) :
    attrs_before (grown front w p q) (front.length + k) = attrs_before front front.length
      + attrs_before [filler p front.length, filler q (front.length + 1),
          filler w (front.length + 2), narrow (front.length + 3)] k :=
  attrs_before_append _ _ k

/-- An insert for a row behind `front`. -/
theorem Sole.overwrite_behind {back : List NewSpan} {k : ℕ} (h : Sole s (front ++ back))
    (hspan : span.attributes.map Prod.fst ⊆ ["a", "b"])
    (hk : (back.map (·.span_id))[k]? = some span.span_id)
    (hend : attrs_before front front.length + attrs_before back (k + 1) < 2 ^ 32) :
    ∃ s', s.step (.insert (tid 1) span 0) = some s' ∧ Sole s' (front ++ back.set k span) := by
  have hrow : ((front ++ back).map (·.span_id))[front.length + k]? = some span.span_id := by
    rw [List.map_append, List.getElem?_append_right (by simp), List.length_map,
      Nat.add_sub_cancel_left]
    exact hk
  obtain ⟨s', hs', h'⟩ := h.overwrite hspan hrow (by
    rw [Nat.add_assoc, attrs_before_append]
    exact hend) 0
  rw [List.set_append_right _ _ (Nat.le_add_right _ _), Nat.add_sub_cancel_left] at h'
  exact ⟨s', hs', h'⟩

/-- An insert for the first of the two rows. -/
theorem Sole.write_first (h : Sole s (grown front w p q))
    (hend : attrs_before front front.length + p < 2 ^ 32) (p' : ℕ) :
    ∃ s', s.step (.insert (tid 1) (filler p' front.length) 0) = some s'
      ∧ Sole s' (grown front w p' q) :=
  h.overwrite_behind (k := 0) (filler_keys p' front.length) rfl (by
    simpa [attrs_before, filler] using hend)

/-- An insert for the second. -/
theorem Sole.write_second (h : Sole s (grown front w p q))
    (hend : attrs_before front front.length + p + q < 2 ^ 32) (q' : ℕ) :
    ∃ s', s.step (.insert (tid 1) (filler q' (front.length + 1)) 0) = some s'
      ∧ Sole s' (grown front w p q') :=
  h.overwrite_behind (k := 1) (filler_keys q' (front.length + 1)) rfl (by
    simpa [attrs_before, filler, Nat.add_assoc] using hend)

/-- The last row, sent again below the limit. -/
theorem Sole.write_last (h : Sole s (grown front w p q))
    (hend : attrs_before front front.length + p + q + w + 1 < 2 ^ 32) :
    ∃ s', s.step (.insert (tid 1) (narrow (front.length + 3)) 0) = some s'
      ∧ Sole s' (grown front w p q) :=
  h.overwrite_behind (k := 3) (narrow_keys (front.length + 3)) rfl (by
    simpa [attrs_before, filler, narrow, Nat.add_assoc] using hend)

/-- The last row, sent again where it starts at the limit: its attribute is the
first row's from then on. -/
theorem Sole.write_last_wrapped {first : NewSpan} {rest : List NewSpan} {a : String × AttrValue}
    {as : List (String × AttrValue)} (h : Sole s (grown (first :: rest) w p q))
    (hfirst : first.attributes = a :: as)
    (hwrap : attrs_before (first :: rest) (rest.length + 1) + p + q + w = 2 ^ 32) :
    ∃ s', s.step (.insert (tid 1) (narrow (rest.length + 4)) 0) = some s'
      ∧ Sole s' (grown ({ first with attributes := ("b", .bool false) :: as } :: rest) w p q) := by
  have hrows : grown (first :: rest) w p q = first :: (rest ++ [filler p (rest.length + 1),
      filler q (rest.length + 2), filler w (rest.length + 3), narrow (rest.length + 4)]) := rfl
  have hbefore : attrs_before (grown (first :: rest) w p q) ((first :: rest).length + 3)
      = attrs_before (first :: rest) (first :: rest).length
        + attrs_before [filler p (first :: rest).length, filler q ((first :: rest).length + 1),
            filler w ((first :: rest).length + 2), narrow ((first :: rest).length + 3)] 3 :=
    attrs_before_grown 3
  rw [hrows] at h hbefore
  refine h.overwrite_wrapped (i := rest.length + 4) (narrow_keys _) hfirst rfl ?_ ?_ 0
  · rw [List.getElem?_cons_succ, List.getElem?_append_right (by omega)]
    simp
  · rw [List.length_cons, Nat.add_assoc] at hbefore
    rw [hbefore, ← hwrap]
    simp [attrs_before, filler, Nat.add_assoc]

/-- A batch that leaves the trace below the limit is swept without effect. -/
theorem Sole.applied (h : exec step (batch.inserts now) s = some s') (hsole : Sole s' R)
    (hsmall : attrs_before R R.length < 2 ^ 32) (order : TraceOrder) :
    ∃ s'', s.apply_batch batch now order = some s'' ∧ Sole s'' R := by
  rw [apply_batch, insert_spans_eq_exec, ← SpanBatch.inserts, h]
  -- the malformed count is no part of the trace
  obtain ⟨ks, ss, arrived, hh, hrest⟩ := hsole
  have hcounted : Sole { s' with counters := { s'.counters with
      malformed_span := s'.counters.malformed_span + batch.malformed_span_count } } R :=
    ⟨ks, ss, arrived, { hh with }, hrest⟩
  exact ⟨_, hcounted.sweep hsmall order, hcounted⟩

theorem grown_small (hend : attrs_before front front.length + p + q + w + 1 < 2 ^ 32) :
    attrs_before (grown front w p q) (grown front w p q).length < 2 ^ 32 := by
  have hlen : (grown front w p q).length = front.length + 4 := by simp [grown]
  rw [hlen, attrs_before_grown]
  simpa [attrs_before, filler, narrow, Nat.add_assoc] using hend

/-- The first application stays below. -/
theorem Sole.first_pass (h : Sole s (grown front w 0 0))
    (hend : attrs_before front front.length + 2 * w + 1 < 2 ^ 32) (order : TraceOrder) :
    ∃ s', s.apply_batch (growing_batch w front.length) 0 order = some s'
      ∧ Sole s' (grown front w w 0) := by
  obtain ⟨s₁, hs₁, h₁⟩ := h.write_second (by omega) w
  obtain ⟨s₂, hs₂, h₂⟩ := h₁.write_last (by omega)
  obtain ⟨s₃, hs₃, h₃⟩ := h₂.write_second (by omega) 0
  obtain ⟨s₄, hs₄, h₄⟩ := h₃.write_first (by omega) w
  refine Sole.applied ?_ h₄ (grown_small (by omega)) order
  simp only [growing_batch, SpanBatch.inserts, List.map_cons, List.map_nil, exec_cons, exec_nil,
    hs₁, hs₂, hs₃, hs₄, Option.bind_some]

/-- The row that is written over is as long as before. -/
theorem attrs_before_written {first : NewSpan} {a : String × AttrValue}
    {as : List (String × AttrValue)} (hfirst : first.attributes = a :: as)
    (rest : List NewSpan) (b : String × AttrValue) (i : ℕ) :
    attrs_before ({ first with attributes := b :: as } :: rest) i
      = attrs_before (first :: rest) i := by
  cases i with
  | zero => rfl
  | succ i => simp [attrs_before, hfirst]

/-- The second one crosses the limit and comes back. -/
theorem Sole.second_pass {first : NewSpan} {rest : List NewSpan} {a : String × AttrValue}
    {as : List (String × AttrValue)} (h : Sole s (grown (first :: rest) w w 0))
    (hfirst : first.attributes = a :: as) (hw : 1 < w)
    (hwrap : attrs_before (first :: rest) (rest.length + 1) + 3 * w = 2 ^ 32)
    (order : TraceOrder) :
    ∃ s', s.apply_batch (growing_batch w (rest.length + 1)) 0 order = some s'
      ∧ Sole s' (grown ({ first with attributes := ("b", .bool false) :: as } :: rest) w w 0) := by
  have hsame := attrs_before_written hfirst rest ("b", .bool false) (rest.length + 1)
  obtain ⟨s₁, hs₁, h₁⟩ := h.write_second (by rw [List.length_cons]; omega) w
  obtain ⟨s₂, hs₂, h₂⟩ := h₁.write_last_wrapped hfirst (by omega)
  obtain ⟨s₃, hs₃, h₃⟩ := h₂.write_second (by rw [List.length_cons, hsame]; omega) 0
  obtain ⟨s₄, hs₄, h₄⟩ := h₃.write_first (by rw [List.length_cons, hsame]; omega) w
  refine Sole.applied ?_ h₄ (grown_small (by rw [List.length_cons, hsame]; omega)) order
  rw [List.length_cons] at hs₁ hs₃ hs₄
  simp only [growing_batch, SpanBatch.inserts, List.map_cons, List.map_nil, exec_cons, exec_nil,
    hs₁, hs₂, hs₃, hs₄, Option.bind_some]

end Grown

/-- What `get_attributes` answers for a row of the trace. -/
theorem Sole.get_attributes {R : List NewSpan} {i : ℕ} {r : NewSpan} (h : Sole s R)
    (hr : R[i]? = some r) (hend : attrs_before R (i + 1) < 2 ^ 32) :
    s.get_attributes (tid 1).to_hex i
      = some (.ok (r.attributes.map fun kv => { key := kv.1, value := kv.2 })) := by
  obtain ⟨ks, ss, arrived, hh, hks, _, rfl⟩ := h
  have hin := mem_of_mem_lastWrites (List.mem_of_getElem? hr)
  obtain ⟨t, ht⟩ := Option.isSome_iff_exists.mp
    ((hh.isSome_iff (tid 1)).mpr (List.ne_nil_of_mem hin))
  have hshows := hh.shows_of_end ht hr (by rwa [hh.offset_eq hks])
  have hcount : ¬i ≥ t.span_count := by
    rw [Trace.span_count, (hh.resident _ t ht).columns.span_ids, List.length_map]
    exact Nat.not_le_of_lt (List.getElem?_eq_some_iff.mp hr).1
  rw [Store.get_attributes, TraceId.from_hex_to_hex]
  dsimp only
  rw [ht]
  dsimp only
  rw [if_neg hcount, hshows.attribute_entries, hh.restrict_attrs_few hks hin]
  rfl

/-- A batch for the one trace evicts nothing. -/
theorem Sole.kept {R R' : List NewSpan} (h : Sole s R) (h' : Sole s' R') (hne : R' ≠ [])
    (hbatch : ∀ p ∈ batch.spans, p.1 = tid 1) : Kept s batch s' := by
  intro id hid
  obtain ⟨t, ht, _⟩ := h'.trace hne
  have hone : id = tid 1 := by
    obtain hid | ⟨p, hp, rfl⟩ := hid
    · exact h.only hid
    · exact hbatch p hp
  rw [hone]
  exact Option.isSome_of_eq_some ht

/-- The trace of `n` fillers, both rows without attributes. -/
def grown_run (w n : ℕ) : List Event := sends (grown (fillers w n) w 0 0)

/-- The first filler with the attribute of the last row. -/
def written_over (k : ℕ) : NewSpan :=
  { filler (k + 1) 0 with attributes := ("b", .bool false) :: List.replicate k ("a", .bool true) }

theorem grown_ids (w n : ℕ) :
    (grown (fillers w n) w 0 0).map (·.span_id) = (List.range (n + 4)).map nth_span_id := by
  rw [grown, List.map_append, fillers_ids, fillers_length]
  simp [List.range_succ, filler, narrow]

theorem mem_grown {r : NewSpan} {w n : ℕ} (hr : r ∈ grown (fillers w n) w 0 0) :
    (∃ v i, v ≤ w ∧ r = filler v i) ∨ ∃ i, r = narrow i := by
  rcases List.mem_append.mp hr with hr | hr
  · obtain ⟨i, _, rfl⟩ := List.mem_map.mp hr
    exact Or.inl ⟨w, i, Nat.le_refl w, rfl⟩
  · simp only [List.mem_cons, List.not_mem_nil, or_false] at hr
    obtain rfl | rfl | rfl | rfl := hr
    · exact Or.inl ⟨0, _, Nat.zero_le w, rfl⟩
    · exact Or.inl ⟨0, _, Nat.zero_le w, rfl⟩
    · exact Or.inl ⟨w, _, Nat.le_refl w, rfl⟩
    · exact Or.inr ⟨_, rfl⟩

/-- **A batch whose retry writes over a row that it does not mention.** -/
theorem retry_writes_over {k j : ℕ} (hk : 0 < k) (hlimit : (j + 4) * (k + 1) = 2 ^ 32)
    (order : TraceOrder) :
    ∃ s₀ s₁ s₂, exec step (grown_run (k + 1) (j + 1)) (new 0) = some s₀
      ∧ s₀.apply_batch (growing_batch (k + 1) (j + 1)) 0 order = some s₁
      ∧ s₁.apply_batch (growing_batch (k + 1) (j + 1)) 0 order = some s₂
      ∧ Sole s₀ (grown (fillers (k + 1) (j + 1)) (k + 1) 0 0)
      ∧ Sole s₁ (grown (fillers (k + 1) (j + 1)) (k + 1) (k + 1) 0)
      ∧ Sole s₂ (grown (written_over k :: (fillers (k + 1) (j + 1)).tail) (k + 1) (k + 1) 0)
      ∧ ∀ t, s₂.trace (tid 1) = some t → t.attr_keys.length < 2 ^ 32 := by
  have hn : (fillers (k + 1) (j + 1)).length = j + 1 := fillers_length _ _
  have hbefore : attrs_before (fillers (k + 1) (j + 1)) (j + 1) = (j + 1) * (k + 1) :=
    attrs_before_fillers (Nat.le_refl _)
  have hcut : fillers (k + 1) (j + 1) = filler (k + 1) 0 :: (fillers (k + 1) (j + 1)).tail := by
    rw [fillers_succ]
    rfl
  have htail : (fillers (k + 1) (j + 1)).tail.length = j := by
    rw [List.length_tail, hn]
    rfl
  have hsum : (j + 4) * (k + 1) = (j + 1) * (k + 1) + 3 * (k + 1) := by ring
  have hkeys : ∀ r ∈ grown (fillers (k + 1) (j + 1)) (k + 1) 0 0,
      r.attributes.map Prod.fst ⊆ ["a", "b"] := by
    intro r hr
    rcases mem_grown hr with ⟨v, i, _, rfl⟩ | ⟨i, rfl⟩
    · exact filler_keys v i
    · exact narrow_keys i
  have hj : j + 1 + 4 ≤ 2 ^ 64 := by
    have : j + 4 ≤ (j + 4) * (k + 1) := Nat.le_mul_of_pos_right _ (Nat.succ_pos k)
    omega
  obtain ⟨s₀, hs₀, h₀⟩ := (new_sole 0).pushes hkeys (by
    rw [List.nil_append, grown_ids]
    exact nth_span_ids_nodup hj)
  rw [List.nil_append] at h₀
  obtain ⟨s₁, hs₁, h₁⟩ := h₀.first_pass (by rw [hn, hbefore]; omega) order
  rw [hcut] at h₁
  have hattrs : (filler (k + 1) 0).attributes
      = ("a", .bool true) :: List.replicate k ("a", .bool true) := rfl
  obtain ⟨s₂, hs₂, h₂⟩ := h₁.second_pass hattrs (by omega)
    (by rw [htail, ← hcut, hbefore]; omega) order
  rw [hn] at hs₁
  rw [htail] at hs₂
  rw [← hcut] at h₁
  change Sole s₂ (grown (written_over k :: (fillers (k + 1) (j + 1)).tail) (k + 1) (k + 1) 0)
    at h₂
  refine ⟨s₀, s₁, s₂, hs₀, hs₁, hs₂, h₀, h₁, h₂, fun t ht => ?_⟩
  have hwritten : attrs_before (written_over k :: (fillers (k + 1) (j + 1)).tail) (j + 1)
      = (j + 1) * (k + 1) := by
    rw [← hbefore, hcut]
    exact attrs_before_written hattrs _ ("b", .bool false) (j + 1)
  rw [h₂.attr_keys_length ht]
  refine grown_small ?_
  rw [List.length_cons, htail, hwritten]
  omega

/-- No span of it has more than the one width. -/
theorem grown_width {k j : ℕ} {p : TraceId × NewSpan}
    (hp : p ∈ sent (grown_run (k + 1) j) ++ (growing_batch (k + 1) j).spans) :
    p.2.attributes.length ≤ k + 1 := by
  rcases List.mem_append.mp hp with hp | hp
  · rw [grown_run, sent_sends] at hp
    obtain ⟨r, hr, rfl⟩ := List.mem_map.mp hp
    rcases mem_grown hr with ⟨v, i, hv, rfl⟩ | ⟨i, rfl⟩
    · rwa [filler, List.length_replicate]
    · exact Nat.succ_pos k
  · simp only [growing_batch, List.mem_cons, List.not_mem_nil, or_false] at hp
    obtain rfl | rfl | rfl | rfl := hp
    all_goals simp [filler, narrow]

/-- No span of the run or of the batch has more than `2 ^ 16` attributes, and the
second application changes what the first filler shows. -/
theorem retry_past_the_limit :
    ∃ (es : List Event) (batch : SpanBatch) (s₀ s₁ s₂ : Store),
      (∀ p ∈ sent es ++ batch.spans, p.2.attributes.length ≤ 2 ^ 16)
        ∧ exec step es (new 0) = some s₀
        ∧ s₀.apply_batch batch 0 TraceOrder.by_id = some s₁
        ∧ s₁.apply_batch batch 0 TraceOrder.by_id = some s₂
        ∧ Kept s₀ batch s₁ ∧ Kept s₁ batch s₂
        ∧ s₂.get_attributes (tid 1).to_hex 0 ≠ s₁.get_attributes (tid 1).to_hex 0 := by
  obtain ⟨k, hk⟩ : ∃ k : ℕ, k + 1 = 2 ^ 16 := ⟨2 ^ 16 - 1, rfl⟩
  obtain ⟨j, hj⟩ : ∃ j : ℕ, j + 4 = 2 ^ 16 := ⟨2 ^ 16 - 4, rfl⟩
  obtain ⟨s₀, s₁, s₂, hs₀, hs₁, hs₂, h₀, h₁, h₂, _⟩ :=
    retry_writes_over (k := k) (j := j) (by omega) (by rw [hk, hj]; rfl) TraceOrder.by_id
  have hbatch : ∀ p ∈ (growing_batch (k + 1) (j + 1)).spans, p.1 = tid 1 := by
    simp [growing_batch]
  have hne : ∀ {front : List NewSpan} {w p q : ℕ}, grown front w p q ≠ [] := by simp [grown]
  refine ⟨_, _, s₀, s₁, s₂, fun p hp => hk ▸ grown_width hp, hs₀, hs₁, hs₂,
    h₀.kept h₁ hne hbatch, h₁.kept h₂ hne hbatch, ?_⟩
  rw [fillers_succ] at h₁ h₂
  have hfirst : (filler (k + 1) 0).attributes.length < 2 ^ 32 := by
    rw [filler, List.length_replicate]
    omega
  have hfirst' : (written_over k).attributes.length < 2 ^ 32 := by
    rw [written_over, List.length_cons, List.length_replicate]
    omega
  rw [h₁.get_attributes rfl (by rw [grown, List.cons_append, attrs_before_cons_one]; exact hfirst),
    h₂.get_attributes rfl (by rw [grown, List.cons_append, attrs_before_cons_one]; exact hfirst')]
  simp [filler, written_over, List.replicate_succ]

end Store

end Spanfall
