/-
`Bookkeeping.lean` -- how much the store remembers.

After a sweep that leaves more than one trace the resident traces are few, since
each is charged at least one span, and the interners are capped. The table of
evicted generations has neither a charge nor a cap: an entry leaves it only when
its trace comes back. So a trace id once seen is remembered for good, as a
resident trace or as a generation ([`Remembers`]).
-/
import Spanfall.Store.Charge
import Spanfall.Store.Generation
import Spanfall.Store.Refine
import Spanfall.Store.Writer

set_option autoImplicit false

namespace Spanfall

open Lib.HashMap Lib.LastWrite Lib.Runs Lib.Vec

/-- The trace ids an event sends spans to. -/
def Event.trace_ids : Event → List TraceId
  | insert trace_id _ _ => [trace_id]
  | malformed _ => []
  | sweep _ => []

namespace Store

/-- The distinct trace ids ingested along a run. -/
def ingested (es : List Event) : Finset TraceId := (es.flatMap Event.trace_ids).toFinset

/-- The number of trace ids the store remembers. -/
def remembered (s : Store) : ℕ := s.trace_count + len s.evicted_generations

/-! ## Every id is remembered once -/

/-- The ids of `ids` are resident or have an evicted generation, and not
both. -/
structure Remembers (s : Store) (ids : Finset TraceId) : Prop where
  known : ∀ id, id ∈ ids ↔ (s.trace id).isSome ∨ (s.evicted_generations.lookup id).isSome
  once : ∀ id, (s.trace id).isSome → s.evicted_generations.lookup id = none

theorem Remembers.card {s : Store} {ids : Finset TraceId} (h : s.Remembers ids) :
    s.remembered = ids.card := by
  have hunion : s.traces.keys ∪ s.evicted_generations.keys = ids := by
    ext id
    rw [Finset.mem_union, mem_keys, mem_keys]
    exact (h.known id).symm
  have hdisjoint : Disjoint s.traces.keys s.evicted_generations.keys := by
    rw [Finset.disjoint_left]
    intro id ht hg
    rw [mem_keys] at ht hg
    rw [h.once id ht] at hg
    cases hg
  rw [← hunion, Finset.card_union_of_disjoint hdisjoint]
  rfl

/-- Only an insert creates a trace. -/
theorem trace_of_step {s s' : Store} {e : Event} (hs : s.step e = some s') {id : TraceId}
    (h : (s'.trace id).isSome) : id ∈ e.trace_ids ∨ (s.trace id).isSome := by
  cases e with
  | insert trace_id span now =>
    obtain ⟨t', htrace, _⟩ := step_insert hs
    by_cases hid : id = trace_id
    · exact Or.inl (hid ▸ List.mem_singleton_self _)
    · rw [htrace, if_neg hid] at h
      exact Or.inr h
  | malformed count =>
    obtain rfl := Option.some.inj hs
    exact Or.inr h
  | sweep order =>
    obtain ⟨t, ht⟩ := Option.isSome_iff_exists.mp h
    exact Or.inr (by rw [(sweep_of_evict hs).swept.kept id t ht]; rfl)

/-- An insert leaves its trace resident. -/
theorem resident_of_step {s s' : Store} {e : Event} (hs : s.step e = some s') {id : TraceId}
    (h : id ∈ e.trace_ids) : (s'.trace id).isSome := by
  cases e with
  | insert trace_id span now =>
    obtain ⟨t', htrace, _⟩ := step_insert hs
    obtain rfl := List.mem_singleton.mp h
    rw [htrace, if_pos rfl]
    rfl
  | malformed count => cases h
  | sweep order => cases h

theorem Remembers.step {s s' : Store} {ids : Finset TraceId} {e : Event} (h : s.Remembers ids)
    (hs : s.step e = some s') : s'.Remembers (ids ∪ e.trace_ids.toFinset) := by
  have hmem : ∀ id, id ∈ ids ∪ e.trace_ids.toFinset ↔ id ∈ ids ∨ id ∈ e.trace_ids := fun id => by
    rw [Finset.mem_union, List.mem_toFinset]
  -- one event moves an id along: new, resident, evicted, resident again
  refine ⟨fun id => ?_, fun id hres => ?_⟩
  · rw [hmem, h.known]
    have hsent : id ∈ e.trace_ids → (s'.trace id).isSome := resident_of_step hs
    cases trace_step hs id with
    | untouched htrace hevicted =>
      rw [htrace] at hsent ⊢
      rw [hevicted]
      exact ⟨fun hor => hor.elim (fun hk => hk) fun hid => Or.inl (hsent hid), Or.inl⟩
    | grown t t' ht ht' _ _ _ =>
      rw [ht, ht']
      exact ⟨fun _ => Or.inl rfl, fun _ => Or.inl (Or.inl rfl)⟩
    | evicted t ht _ hevicted =>
      rw [ht, hevicted]
      exact ⟨fun _ => Or.inr rfl, fun _ => Or.inl (Or.inl rfl)⟩
    | created t' hnone ht' _ _ =>
      have hid : id ∈ e.trace_ids :=
        (trace_of_step hs (Option.isSome_of_eq_some ht')).resolve_right (by simp [hnone])
      rw [ht']
      exact ⟨fun _ => Or.inl rfl, fun _ => Or.inr hid⟩
  · cases trace_step hs id with
    | untouched htrace hevicted =>
      rw [htrace] at hres
      rw [hevicted]
      exact h.once id hres
    | grown t t' ht _ _ _ hevicted =>
      rw [hevicted]
      exact h.once id (by rw [ht]; rfl)
    | evicted t _ hnone _ =>
      rw [hnone] at hres
      cases hres
    | created t' _ _ _ hevicted => exact hevicted

theorem remembers_of_run {m : ℕ} {es : List Event} {s : Store}
    (h : exec step es (new m) = some s) : s.Remembers (ingested es) := by
  have hnew : (new m).Remembers (ingested []) := by
    refine ⟨fun id => ⟨fun h => absurd h (Finset.notMem_empty id), fun h => ?_⟩, fun _ _ => rfl⟩
    rw [trace, new, Finmap.lookup_empty, Finmap.lookup_empty] at h
    obtain h | h := h
    · cases h
    · cases h
  refine exec_induction (P := fun es s => s.Remembers (ingested es)) hnew
    (fun es s e s' _ ih hs => ?_) h
  rw [ingested, List.flatMap_append, List.flatMap_singleton, List.toFinset_append]
  exact ih.step hs

/-! ## What has a cap -/

/-- The interners have been shown the run, whatever the traces hold. -/
theorem interners_of_run {m : ℕ} {es : List Event} {s : Store}
    (h : exec step es (new m) = some s) :
    (s.key_interner.Holds (keys_shown es) ∧ s.key_interner.cap = GLOBAL_INTERNER_CAP)
      ∧ s.service_interner.Holds (services_shown es)
      ∧ s.service_interner.cap = GLOBAL_INTERNER_CAP := by
  refine exec_induction (P := fun es s =>
    (s.key_interner.Holds (keys_shown es) ∧ s.key_interner.cap = GLOBAL_INTERNER_CAP)
      ∧ s.service_interner.Holds (services_shown es)
      ∧ s.service_interner.cap = GLOBAL_INTERNER_CAP)
    ⟨⟨Interner.new_holds (by decide), rfl⟩, Interner.new_holds (by decide), rfl⟩
    (fun es s e s' _ ih hs => ?_) h
  obtain ⟨⟨hkey, hkcap⟩, hsvc, hscap⟩ := ih
  rw [keys_shown_snoc, services_shown_snoc]
  cases e with
  | insert trace_id span now =>
    obtain ⟨⟨s₁, out⟩, hins, rfl⟩ := Option.map_eq_some_iff.mp hs
    obtain ⟨t, o, hins, _, hsvc', _⟩ := insert_cases hins
    obtain ⟨hsvc₁, hscap₁, _⟩ := intern_service_spec hsvc span.service_name
    obtain ⟨hkey₁, hkcap₁, _⟩ := intern_attrs_spec hkey span.attributes
    obtain ⟨hkey', _⟩ := Trace.insert_cases hins
    -- the tables the insert leaves are those of the two calls of `intern`
    rw [← hkey'] at hkey₁ hkcap₁
    rw [← hsvc'] at hsvc₁ hscap₁
    exact ⟨⟨hkey₁, hkcap₁.trans hkcap⟩, hsvc₁, hscap₁.trans hscap⟩
  | malformed count =>
    obtain rfl := Option.some.inj hs
    rw [Event.keys, Event.services, List.append_nil, List.append_nil]
    exact ⟨⟨hkey, hkcap⟩, hsvc, hscap⟩
  | sweep order =>
    have hswept := (sweep_of_evict hs).swept
    rw [Event.keys, Event.services, List.append_nil, List.append_nil, hswept.key_interner,
      hswept.service_interner]
    exact ⟨⟨hkey, hkcap⟩, hsvc, hscap⟩

/-- The budget is set once. -/
theorem budget_of_run {m : ℕ} {es : List Event} {s : Store}
    (h : exec step es (new m) = some s) : s.max_memory_bytes = m := by
  refine exec_invariant (I := fun s => s.max_memory_bytes = m) ?_ rfl h
  intro s e s' ih hs
  cases e with
  | insert trace_id span now =>
    obtain ⟨⟨s₁, out⟩, hins, rfl⟩ := Option.map_eq_some_iff.mp hs
    obtain ⟨_, _, _, _, _, hmax, _⟩ := insert_cases hins
    exact hmax.trans ih
  | malformed count =>
    obtain rfl := Option.some.inj hs
    exact ih
  | sweep order => exact (sweep_of_evict hs).swept.max_memory_bytes.trans ih

/-- What every insert establishes of its trace, given what a fresh trace has and
the resident ones keep, holds of every resident trace of a run. -/
theorem traces_of_run {m : ℕ} {I J : Trace → Prop} {Sent : NewSpan → Prop}
    (hnew : ∀ trace_id now generation, I { Trace.new trace_id now with generation })
    (hkeep : ∀ t, J t → I t)
    (hinsert : ∀ {t span svc key now t' key' out}, I t → Sent span →
      t.insert span svc key now = some (t', key', out) → J t')
    {es : List Event} {s : Store} (hsent : ∀ id span now, .insert id span now ∈ es → Sent span)
    (h : exec step es (new m) = some s) : ∀ id t, s.trace id = some t → J t := by
  have hrun : ∀ id t, s.trace id = some t →
      (∀ id span now, .insert id span now ∈ es → Sent span) → J t := by
    refine resident_of_run (P := fun es _ t =>
      (∀ id span now, .insert id span now ∈ es → Sent span) → J t) ?_ ?_ h
    · intro es e id t hJ hsent
      exact hJ fun id span now he => hsent id span now (List.mem_append_left _ he)
    · intro es s trace_id span now svc t key out _ ih hins hsent
      have hspan := hsent trace_id span now (List.mem_append_right _ (List.mem_singleton_self _))
      have hentry : I (s.entry trace_id now).1 := by
        cases hu : s.trace trace_id with
        | none =>
          rw [entry_of_none hu]
          exact hnew _ _ _
        | some u =>
          rw [entry_of_some hu]
          exact hkeep u (ih u hu fun id span now he =>
            hsent id span now (List.mem_append_left _ he))
      exact hinsert hentry hspan hins
  intro id t ht
  exact hrun id t ht hsent

/-- Every resident trace has a span. -/
theorem span_count_pos {m : ℕ} {es : List Event} {s : Store} (h : exec step es (new m) = some s)
    {id : TraceId} {t : Trace} (ht : s.trace id = some t) : 0 < t.span_count :=
  (@traces_of_run m (fun t => t.names.length = t.span_count)
    (fun t => t.names.length = t.span_count ∧ 0 < t.span_count) (fun _ => True)
    (fun _ _ _ => rfl) (fun _ hJ => hJ.1) (fun hI _ hins => Trace.insert_named hins hI)
    es s (fun _ _ _ _ => trivial) h id t ht).2

/-! ## After a sweep -/

theorem remembered_after_sweep {m : ℕ} {es : List Event} {order : TraceOrder} {s s' : Store}
    (h : exec step es (new m) = some s) (hsweep : s.evict_over_budget order = some s') :
    s'.remembered = (ingested es).card := by
  have h' : exec step (es ++ [.sweep order]) (new m) = some s' := exec_tail h hsweep
  have hall := remembers_of_run h'
  rw [hall.card, ingested, ingested, List.flatMap_append, List.flatMap_singleton, Event.trace_ids,
    List.append_nil]

/-- A sweep that leaves more than one trace leaves no more than the budget pays
for. -/
theorem few_after_sweep {m : ℕ} {es : List Event} {order : TraceOrder} {s s' : Store}
    (h : exec step es (new m) = some s) (hsweep : s.evict_over_budget order = some s')
    (hcount : 1 < s'.trace_count) : APPROX_SPAN_FIXED_BYTES * s'.trace_count ≤ m := by
  have h' : exec step (es ++ [.sweep order]) (new m) = some s' := exec_tail h hsweep
  obtain ⟨n, hn, hfits⟩ := (sweep_of_evict hsweep).fits
  obtain ⟨hall, rfl⟩ := total_approx_bytes_eq_some.mp hn
  -- every trace has a span, and is charged at least for it
  have hcharge : APPROX_SPAN_FIXED_BYTES * s'.trace_count
      ≤ total (fun _ t => charge t) s'.traces := by
    rw [trace_count, len_eq_total, ← total_mul]
    refine total_le_total fun e he => ?_
    have ht : s'.trace e.1 = some e.2 := mem_entries.mp he
    obtain ⟨b, hb⟩ := Option.isSome_iff_exists.mp (hall e.1 e.2 ht)
    rw [charge, hb, Option.getD_some]
    exact (Nat.mul_le_mul_left _ (span_count_pos h' ht)).trans (fixed_le_approx_bytes hb)
  have hbudget := budget_of_run h'
  omega

/-- **What is bounded after a sweep, and what is not.** The resident traces and
the interned strings keep to the budget and the caps. The trace ids that are
remembered are all that were ever ingested. -/
theorem bookkeeping_after_sweep {m : ℕ} {es : List Event} {order : TraceOrder} {s s' : Store}
    (h : exec step es (new m) = some s) (hsweep : s.evict_over_budget order = some s')
    (hcount : 1 < s'.trace_count) :
    APPROX_SPAN_FIXED_BYTES * s'.trace_count ≤ m
      ∧ s'.key_interner.values.length ≤ GLOBAL_INTERNER_CAP
      ∧ s'.service_interner.values.length ≤ GLOBAL_INTERNER_CAP
      ∧ s'.remembered = (ingested es).card := by
  have h' : exec step (es ++ [.sweep order]) (new m) = some s' := exec_tail h hsweep
  obtain ⟨⟨hkey, hkcap⟩, hsvc, hscap⟩ := interners_of_run h'
  exact ⟨few_after_sweep h hsweep hcount, hkcap ▸ hkey.length_le, hscap ▸ hsvc.length_le,
    remembered_after_sweep h hsweep⟩

/-! ## A run that spreads one span over many traces -/

/-- A sweep that needs no more than `c` for every trace leaves as many as
fit. -/
theorem Sweep.count_ge {s s' : Store} {order : TraceOrder} (h : Sweep order s s') {c k : ℕ}
    (hcharge : ∀ id t, s.trace id = some t → charge t ≤ c) (hfit : k * c ≤ s.max_memory_bytes)
    (hk : k ≤ s.trace_count) : k ≤ s'.trace_count := by
  induction h with
  | done => exact hk
  | @turn s s' n v t htotal hover hcount hv _ hrest ih =>
    have hle : n ≤ c * s.trace_count := by
      rw [(total_approx_bytes_eq_some.mp htotal).2, trace_count, len_eq_total, ← total_mul]
      refine total_le_total fun e he => ?_
      rw [Nat.mul_one]
      exact hcharge e.1 e.2 (mem_entries.mp he)
    have hlt : k < s.trace_count := by
      by_contra hge
      have := Nat.mul_le_mul_right c (Nat.le_of_not_lt hge)
      rw [Nat.mul_comm] at this
      omega
    have hevict := evict_count hv
    refine ih (fun id t ht => ?_) (by rw [evict_eq hv]; exact hfit) (by omega)
    exact hcharge id t ((Swept.evict hv).kept id t ht)

/-- One span sent to each of the traces `ids`. -/
def spread (span : NewSpan) (ids : List TraceId) : List Event :=
  (ids.map fun id => (id, span)).map fun p => .insert p.1 p.2 0

theorem ingested_spread (span : NewSpan) (ids : List TraceId) :
    ingested (spread span ids) = ids.toFinset := by
  rw [ingested, spread, List.map_map, List.flatMap_map]
  exact congrArg List.toFinset (List.flatMap_singleton' ids)

/-- The run ends and leaves a trace for each id, with the one span in it. -/
theorem spread_run (span : NewSpan) (hattrs : span.attributes = []) (m : ℕ)
    (ids : List TraceId) :
    ∃ s, exec step (spread span ids) (new m) = some s ∧ ids.toFinset.card ≤ s.trace_count
      ∧ ∀ id t, s.trace id = some t →
        t.status_messages = [span.status_message] ∧ t.names = [span.name]
          ∧ approx_bytes t = some (APPROX_SPAN_FIXED_BYTES + span.name.utf8ByteSize) := by
  have hnone : attrs_sent (spread span ids) = 0 := by
    rw [attrs_sent, keys_shown, spread, List.map_map, List.flatMap_map]
    simp [Event.keys, hattrs]
  have hbelow : AttrsBelow (new m) (spread span ids) := AttrsBelow.of_sent (by rw [hnone]; decide)
  obtain ⟨s, hs, hh⟩ := run_holds m _ hbelow
  refine ⟨s, hs, ?_, fun id t ht => ?_⟩
  · refine Finset.card_le_card fun id hid => ?_
    rw [List.mem_toFinset] at hid
    obtain ⟨t, ht, _⟩ := (inserts_trace hs id).2.1 ⟨(id, span), List.mem_map_of_mem hid, rfl⟩
    exact mem_keys.mpr (Option.isSome_of_eq_some ht)
  · have hc := (hh.resident id t ht).columns
    -- every row is `span`, under one id, and there is a row
    set R := lastWrites NewSpan.span_id (arrivals (spread span ids) (new m) id) with hR
    have hrow : ∀ r ∈ R, r = span := fun r hr => by
      have hr' := mem_of_mem_lastWrites hr
      rw [arrivals, spread, ghost_inserts hs, List.nil_append, List.mem_map] at hr'
      obtain ⟨p, hp, rfl⟩ := hr'
      obtain ⟨_, _, rfl⟩ := List.mem_map.mp (List.mem_filter.mp hp).1
      rfl
    have hlen : R.length = t.span_count := by
      rw [Trace.span_count, hc.span_ids, List.length_map]
    have hpos := span_count_pos hs ht
    have hrep := List.eq_replicate_iff.mpr ⟨hlen, hrow⟩
    have hone : t.span_count = 1 := by
      have hnodup : (R.map NewSpan.span_id).Nodup := lastWrites_nodup _
      rw [hrep, List.map_replicate, List.nodup_replicate] at hnodup
      omega
    rw [hone] at hrep
    have hsmall := hbelow.last hs ht
    rw [hrep] at hc
    refine ⟨hc.status_messages, hc.names, ?_⟩
    rw [hc.approx_bytes hsmall]
    simp [row_charge, kept_attrs, hattrs]

/-- Two traces of a span without name survive the sweep under a budget of
128. -/
theorem spread_swept (span : NewSpan) (hattrs : span.attributes = []) (hname : span.name = "")
    (ids : List TraceId) (hids : 1 < ids.toFinset.card) (order : TraceOrder) :
    ∃ s s', exec step (spread span ids) (new 128) = some s
      ∧ s.evict_over_budget order = some s' ∧ 1 < s'.trace_count := by
  obtain ⟨s, hs, hcount, htraces⟩ := spread_run span hattrs 128 ids
  have hcharge : ∀ id t, s.trace id = some t → approx_bytes t = some APPROX_SPAN_FIXED_BYTES :=
    fun id t ht => by
      rw [(htraces id t ht).2.2, hname]
      rfl
  obtain ⟨s', hs'⟩ : ∃ s', s.evict_over_budget order = some s' :=
    evict_loop_isSome fun id t ht => by
      rw [hcharge id t ht]
      rfl
  refine ⟨s, s', hs, hs', ?_⟩
  refine (sweep_of_evict hs').count_ge (c := APPROX_SPAN_FIXED_BYTES) (k := 2)
    (fun id t ht => ?_) ?_ (by omega)
  · rw [charge, hcharge id t ht]
    rfl
  · rw [budget_of_run hs]
    decide

theorem bookkeeping_after_sweep_three :
    ∃ s s', exec step (spread (Trace.span 1 none "") [tid 1, tid 2, tid 3]) (new 128) = some s
      ∧ s.evict_over_budget TraceOrder.by_id = some s' ∧ s'.trace_count ≤ 2
      ∧ s'.remembered = 3 := by
  obtain ⟨s, s', hs, hs', hcount⟩ := spread_swept (Trace.span 1 none "") rfl rfl
    [tid 1, tid 2, tid 3] (by decide) TraceOrder.by_id
  obtain ⟨hfew, _, _, hall⟩ := bookkeeping_after_sweep hs hs' hcount
  rw [APPROX_SPAN_FIXED_BYTES] at hfew
  refine ⟨s, s', hs, hs', by omega, ?_⟩
  rw [hall, ingested_spread]
  decide

/-! ## All trace ids -/

/-- The `n`-th trace id. -/
def nth_id (n : ℕ) : TraceId := ⟨.ofFn fun i : Fin 16 => UInt8.ofNat (n / 256 ^ i.val)⟩

/-- A number below `256 ^ k` is determined by its lowest `k` bytes. -/
theorem eq_of_bytes {k : ℕ} : ∀ {n m : ℕ}, n < 256 ^ k → m < 256 ^ k →
    (∀ i, i < k → n / 256 ^ i % 256 = m / 256 ^ i % 256) → n = m := by
  induction k with
  | zero =>
    intro n m hn hm _
    rw [Nat.pow_zero] at hn hm
    omega
  | succ k ih =>
    intro n m hn hm h
    rw [Nat.pow_succ] at hn hm
    have hlow := h 0 (Nat.succ_pos k)
    rw [Nat.pow_zero, Nat.div_one, Nat.div_one] at hlow
    have hhigh : n / 256 = m / 256 := by
      refine ih (by omega) (by omega) fun i hi => ?_
      have := h (i + 1) (by omega)
      rwa [Nat.pow_succ, Nat.mul_comm, ← Nat.div_div_eq_div_mul,
        ← Nat.div_div_eq_div_mul] at this
    omega

theorem nth_id_injective {n m : ℕ} (hn : n < 2 ^ 128) (hm : m < 2 ^ 128)
    (h : nth_id n = nth_id m) : n = m := by
  refine eq_of_bytes (k := 16) hn hm fun i hi => ?_
  have hbytes := congrArg (fun id : TraceId => id.bytes[i].toNat) h
  simpa [nth_id] using hbytes

/-- The `n`-th span id. -/
def nth_span_id (n : ℕ) : SpanId := ⟨.ofFn fun i : Fin 8 => UInt8.ofNat (n / 256 ^ i.val)⟩

theorem nth_span_id_injective {n k : ℕ} (hn : n < 2 ^ 64) (hk : k < 2 ^ 64)
    (h : nth_span_id n = nth_span_id k) : n = k := by
  apply eq_of_bytes (k := 8) hn hk
  intro i hi
  have hbytes := congrArg (fun id : SpanId => id.bytes[i].toNat) h
  simpa [nth_span_id] using hbytes

/-- **No bound short of the number of all ids** holds, however small the
budget: a run can visit them all, and none is forgotten. -/
theorem remembers_every_id :
    ¬∃ B < 2 ^ 128, ∀ es order s s', exec step es (new 128) = some s →
      s.evict_over_budget order = some s' → 1 < s'.trace_count → s'.remembered ≤ B := by
  rintro ⟨B, hB, hbound⟩
  -- one id more than the bound, and at least two
  obtain ⟨N, hN, hBN, hN2⟩ : ∃ N, N ≤ 2 ^ 128 ∧ B < N ∧ 1 < N :=
    ⟨max 2 (B + 1), by omega, by omega, by omega⟩
  have hcard : ((List.range N).map nth_id).toFinset.card = N := by
    rw [List.toFinset_card_of_nodup, List.length_map, List.length_range]
    refine (List.nodup_range).map_on fun n hn m hm => nth_id_injective ?_ ?_
    · exact (List.mem_range.mp hn).trans_le hN
    · exact (List.mem_range.mp hm).trans_le hN
  obtain ⟨s, s', hs, hs', hcount⟩ := spread_swept (Trace.span 1 none "") rfl rfl
    ((List.range N).map nth_id) (by rw [hcard]; exact hN2) TraceOrder.by_id
  have hle := hbound _ _ s s' hs hs' hcount
  rw [remembered_after_sweep hs hs', ingested_spread, hcard] at hle
  omega

end Store

end Spanfall
