/-
`Victims.lean` -- which traces a sweep takes.

The loop recomputes the total and the minimum every turn. What it has done in
the end has a description without a loop: line the traces up by their last
activity, and the victims are the shortest prefix without which the rest fits
([`ShortestPrefix`]). The traces that tie may be lined up either way, and the
walking order of the map decides which way it was.
-/
import Spanfall.Store.Eviction
import Spanfall.Store.Retry

set_option autoImplicit false

namespace Spanfall

open Lib.HashMap Lib.Runs Lib.Vec

namespace Store

variable {s s' : Store} {order : TraceOrder}

/-! ## The shortest prefix -/

/-- The traces fit the budget, or there is no more than one. -/
def Fits (budget : ℕ) (l : List (Σ _ : TraceId, Trace)) : Prop :=
  (l.map fun e => charge e.2).sum ≤ budget ∨ l.length ≤ 1

/-- No shorter prefix than `victims` leaves traces that fit. -/
structure ShortestPrefix (budget : ℕ) (victims survivors : List (Σ _ : TraceId, Trace)) :
    Prop where
  enough : Fits budget survivors
  needed : ∀ j < victims.length, ¬Fits budget ((victims ++ survivors).drop j)

theorem Fits.perm {budget : ℕ} {l l' : List (Σ _ : TraceId, Trace)} (h : l.Perm l') :
    Fits budget l ↔ Fits budget l' := by
  rw [Fits, Fits, (h.map _).sum_eq, h.length_eq]

theorem ShortestPrefix.cons {budget : ℕ} {e : Σ _ : TraceId, Trace}
    {victims survivors : List (Σ _ : TraceId, Trace)} (h : ShortestPrefix budget victims survivors)
    (hover : ¬Fits budget (e :: (victims ++ survivors))) :
    ShortestPrefix budget (e :: victims) survivors := by
  refine ⟨h.enough, fun j hj => ?_⟩
  cases j with
  | zero => exact hover
  | succ j => exact h.needed j (Nat.lt_of_succ_lt_succ hj)

/-- Without the last victim the prefix is too short. -/
theorem ShortestPrefix.last {budget : ℕ} {earlier survivors : List (Σ _ : TraceId, Trace)}
    {last : Σ _ : TraceId, Trace} (h : ShortestPrefix budget (earlier ++ [last]) survivors) :
    budget < charge last.2 + (survivors.map fun e => charge e.2).sum := by
  have hover := h.needed earlier.length (by simp)
  rw [List.append_assoc, List.drop_left, Fits, not_or] at hover
  have hsum := hover.1
  rw [List.singleton_append, List.map_cons, List.sum_cons] at hsum
  omega

/-! ## One sweep -/

/-- `s'` is `s` without the victims, whose generations are recorded and which
are counted. -/
structure Evicts (s s' : Store) (victims survivors : List (Σ _ : TraceId, Trace)) : Prop where
  traces : ∀ id t, s'.trace id = some t ↔ ⟨id, t⟩ ∈ survivors
  recorded : ∀ e ∈ victims, s'.evicted_generations.lookup e.1 = some e.2.generation
  others : ∀ id, (∀ e ∈ victims, e.1 ≠ id) →
    s'.evicted_generations.lookup id = s.evicted_generations.lookup id
  counters : s'.counters
    = { s.counters with evicted_traces := s.counters.evicted_traces + victims.length }
  key_interner : s'.key_interner = s.key_interner
  service_interner : s'.service_interner = s.service_interner
  max_memory_bytes : s'.max_memory_bytes = s.max_memory_bytes

/-- The relation by which the traces are lined up. -/
def Quieter (a b : Σ _ : TraceId, Trace) : Prop :=
  a.2.last_activity_unix_nano ≤ b.2.last_activity_unix_nano

/-- The walk of a map, without one of its traces. -/
theorem iter_evict {id : TraceId} {t : Trace} (h : s.trace id = some t) :
    (⟨id, t⟩ :: order.iter (s.evict id).traces : List (Σ _ : TraceId, Trace)).Perm
      (order.iter s.traces) := by
  have hentries : s.traces.entries
      = (⟨id, t⟩ : Σ _ : TraceId, Trace) ::ₘ (s.traces.erase id).entries := by
    have hback : (s.traces.erase id).insert id t = s.traces := by
      rw [erase_insert, insert_lookup h]
    conv_lhs => rw [← hback]
    exact Finmap.entries_insert_of_notMem Finmap.notMem_erase_self
  rw [← Multiset.coe_eq_coe, ← Multiset.cons_coe, order.coe_iter, order.coe_iter, hentries,
    evict_eq h]

/-- The total, along the walk. -/
theorem fits_iff {n : ℕ} (h : s.total_approx_bytes order = some n) :
    Fits s.max_memory_bytes (order.iter s.traces)
      ↔ n ≤ s.max_memory_bytes ∨ s.trace_count ≤ 1 := by
  obtain ⟨_, rfl⟩ := total_approx_bytes_eq_some.mp h
  rw [Fits, order.sum_map (fun _ t => charge t), order.length_iter]
  rfl

/-- The traces of a store, lined up. -/
theorem exists_lined_up (s : Store) (order : TraceOrder) :
    ∃ l : List (Σ _ : TraceId, Trace), l.Perm (order.iter s.traces) ∧ l.Pairwise Quieter := by
  have htotal : Std.Total Quieter := ⟨fun a b => UInt64.le_total _ _⟩
  have htrans : IsTrans (Σ _ : TraceId, Trace) Quieter := ⟨fun a b c => UInt64.le_trans⟩
  classical
  exact ⟨_, List.perm_insertionSort Quieter _, List.pairwise_insertionSort Quieter _⟩

/-- **The sweep takes the shortest prefix.** The induction is on the turns: each
takes the head of the line, and the rest of the line is that of the rest of the
sweep. -/
theorem Sweep.shortest (h : Sweep order s s') :
    ∃ victims survivors, (victims ++ survivors).Perm (order.iter s.traces)
      ∧ (victims ++ survivors).Pairwise Quieter
      ∧ ShortestPrefix s.max_memory_bytes victims survivors ∧ Evicts s s' victims survivors := by
  induction h with
  | @done s n htotal hfits =>
    obtain ⟨l, hperm, hsorted⟩ := exists_lined_up s order
    refine ⟨[], l, hperm, hsorted, ⟨?_, nofun⟩, ?_⟩
    · rw [Fits.perm hperm]
      exact (fits_iff htotal).mpr hfits
    · refine ⟨fun id t => ?_, nofun, fun _ _ => rfl, rfl, rfl, rfl, rfl⟩
      rw [hperm.mem_iff, order.mem_iter_lookup]
      rfl
  | @turn s s' n id t htotal hover hcount hid hold hrest ih =>
    obtain ⟨victims, survivors, hperm, hsorted, hshort, hevicts⟩ := ih
    have hline : (⟨id, t⟩ :: (victims ++ survivors) : List (Σ _ : TraceId, Trace)).Perm
        (order.iter s.traces) := (hperm.cons _).trans (iter_evict hid)
    have hmax : (s.evict id).max_memory_bytes = s.max_memory_bytes := by rw [evict_eq hid]
    rw [hmax] at hshort
    refine ⟨⟨id, t⟩ :: victims, survivors, hline, ?_, ?_, ?_⟩
    · refine List.pairwise_cons.mpr ⟨fun e he => ?_, hsorted⟩
      have hin := hline.mem_iff.mp (List.mem_cons_of_mem _ he)
      exact UInt64.le_iff_toNat_le.mpr (hold e.1 e.2 (order.mem_iter_lookup.mp hin))
    · apply hshort.cons
      intro hfits
      rw [Fits.perm hline, fits_iff htotal] at hfits
      omega
    · -- the first victim is none of the later ones, which are resident after it
      have hnot : ∀ e ∈ victims, e.1 ≠ id := by
        rintro ⟨id', t'⟩ he rfl
        have hin := hperm.mem_iff.mp (List.mem_append_left _ he)
        have hres : (s.evict id').trace id' = some t' := order.mem_iter_lookup.mp hin
        rw [trace_evict hid, if_pos rfl] at hres
        cases hres
      have hgen : ∀ id', (s.evict id).evicted_generations.lookup id'
          = if id' = id then some t.generation else s.evicted_generations.lookup id' := fun id' => by
        rw [evict_eq hid]
        exact lookup_insert _ _ _ _
      refine ⟨hevicts.traces, fun e he => ?_, fun id' hid' => ?_, ?_, ?_, ?_, ?_⟩
      · obtain rfl | he := List.mem_cons.mp he
        · rw [hevicts.others id hnot, hgen, if_pos rfl]
        · exact hevicts.recorded e he
      · rw [hevicts.others id' fun e he => hid' e (List.mem_cons_of_mem _ he), hgen,
          if_neg fun he => hid' ⟨id, t⟩ List.mem_cons_self he.symm]
      · rw [hevicts.counters, evict_eq hid, List.length_cons]
        simp only [Counters.mk.injEq, and_true, true_and]
        omega
      · rw [hevicts.key_interner, evict_eq hid]
      · rw [hevicts.service_interner, evict_eq hid]
      · rw [hevicts.max_memory_bytes, hmax]

/-- A store that fits is left as it is. -/
theorem Sweep.eq_of_fits (h : Sweep order s s')
    (hfits : Fits s.max_memory_bytes (order.iter s.traces)) : s' = s := by
  cases h with
  | done => rfl
  | turn htotal hover hcount _ _ _ =>
    rw [fits_iff htotal] at hfits
    omega

/-- A sweep returns exactly when every estimate it may take does. -/
theorem evict_over_budget_isSome :
    (s.evict_over_budget order).isSome
      ↔ ∀ id t, s.trace id = some t → (approx_bytes t).isSome := by
  refine ⟨fun h => ?_, fun h => ?_⟩
  · obtain ⟨s', hs'⟩ := Option.isSome_iff_exists.mp h
    -- the first turn already adds all of them up
    cases sweep_of_evict hs' with
    | done htotal _ => exact (total_approx_bytes_eq_some.mp htotal).1
    | turn htotal _ _ _ _ _ => exact (total_approx_bytes_eq_some.mp htotal).1
  · obtain ⟨s', hs'⟩ : ∃ s', s.evict_over_budget order = some s' := evict_loop_isSome h
    rw [hs']
    rfl

/-- **A sweep removes exactly what it must**, from any store and under any
budget; and it returns unless the estimate of a resident trace panics, which none does
that a run below the attribute limit leaves. -/
theorem evict_over_budget_exact (s : Store) (order : TraceOrder) :
    ((s.evict_over_budget order).isSome
        ↔ ∀ id t, s.trace id = some t → (approx_bytes t).isSome)
      ∧ (∀ m es, AttrsBelow (new m) es → exec step es (new m) = some s →
          (s.evict_over_budget order).isSome)
      ∧ ∀ s', s.evict_over_budget order = some s' →
        (∃ victims survivors, (victims ++ survivors).Perm (order.iter s.traces)
          ∧ (victims ++ survivors).Pairwise Quieter
          ∧ ShortestPrefix s.max_memory_bytes victims survivors ∧ Evicts s s' victims survivors
          ∧ (∀ v ∈ victims, ∀ u ∈ survivors,
              v.2.last_activity_unix_nano ≤ u.2.last_activity_unix_nano)
          ∧ ∀ earlier last, victims = earlier ++ [last] →
              s.max_memory_bytes < charge last.2 + (survivors.map fun e => charge e.2).sum)
        ∧ (Fits s.max_memory_bytes (order.iter s.traces) → s' = s) := by
  refine ⟨evict_over_budget_isSome, fun m es hsmall hs => ?_,
    fun s' hs' => ⟨?_, (sweep_of_evict hs').eq_of_fits⟩⟩
  · obtain ⟨s', hs', -⟩ := (holds_of_run hs hsmall).sweep (fun id t ht => hsmall.last hs ht) order
    exact Option.isSome_of_eq_some hs'
  · obtain ⟨victims, survivors, hperm, hsorted, hshort, hevicts⟩ := (sweep_of_evict hs').shortest
    refine ⟨victims, survivors, hperm, hsorted, hshort, hevicts, ?_, ?_⟩
    · exact (List.pairwise_append.mp hsorted).2.2
    · rintro earlier last rfl
      exact hshort.last

/-! ## Past the attribute limit -/

/-- **A sweep can panic** in a reachable store: after `2 ^ 16` spans of `2 ^ 16`
attributes, the last of which ends at the limit. -/
theorem sweep_past_the_limit :
    ∃ es s, (∀ p ∈ sent es, p.2.attributes.length ≤ 2 ^ 16) ∧ exec step es (new 0) = some s
      ∧ ∀ order, s.evict_over_budget order = none := by
  obtain ⟨w, hw⟩ : ∃ w : ℕ, w = 2 ^ 16 := ⟨2 ^ 16, rfl⟩
  obtain ⟨n, hn⟩ : ∃ n : ℕ, n + 1 = 2 ^ 16 := ⟨2 ^ 16 - 1, rfl⟩
  have hids : (([] ++ fillers w (n + 1)).map NewSpan.span_id).Nodup := by
    rw [List.nil_append, fillers_ids]
    exact nth_span_ids_nodup (by omega)
  obtain ⟨s, hs, hsole⟩ := (new_sole 0).pushes fillers_keys hids
  rw [List.nil_append] at hsole
  have hlimit : n * w + w = 2 ^ 32 := by
    rw [← Nat.add_one_mul, hn, hw]
    rfl
  have hlast : attrs_before (fillers w (n + 1)) n = n * w := attrs_before_fillers (by omega)
  have hend : attrs_before (fillers w (n + 1)) (n + 1) = n * w + w := by
    rw [attrs_before_fillers (Nat.le_refl _), Nat.succ_mul]
  obtain ⟨t, ht, hnone⟩ := hsole.approx_bytes_across (i := n) (by rw [fillers_length]; omega)
    (by omega) (by omega) (hend.trans hlimit)
  refine ⟨_, s, fun p hp => ?_, hs, fun order => ?_⟩
  · rw [sent_sends] at hp
    obtain ⟨r, hr, rfl⟩ := List.mem_map.mp hp
    rw [fillers_attributes hr, hw]
  · apply Option.not_isSome_iff_eq_none.mp
    intro h
    have hall := evict_over_budget_isSome.mp h (tid 1) t ht
    rw [hnone] at hall
    cases hall

end Store

end Spanfall
