/-
`Eviction.lean` -- what one sweep does, turn by turn.

[`Sweep`] is the loop of `evict_over_budget` as a relation: it stops when the
traces fit or one is left, and every turn before that removes a trace that no
resident one is older than. What a sweep leaves alone is in [`Swept`], and both
hold of every walking order ([`sweep_of_evict`], [`Sweep.swept`]).
-/
import Spanfall.Store.Store

set_option autoImplicit false

namespace Spanfall

open Lib.HashMap Lib.Vec

namespace Store

variable {s s' : Store} {order : TraceOrder}

/-- What a trace is charged, where the estimate does not panic. -/
def charge (t : Trace) : ℕ := (approx_bytes t).getD 0

/-- The total, without the walk. -/
theorem total_approx_bytes_eq_some {n : ℕ} :
    s.total_approx_bytes order = some n
      ↔ (∀ id t, s.trace id = some t → (approx_bytes t).isSome)
        ∧ n = total (fun _ t => charge t) s.traces := by
  have hsum : (∀ id t, s.trace id = some t → (approx_bytes t).isSome) →
      s.total_approx_bytes order = some (total (fun _ t => charge t) s.traces) := fun h => by
    have hall : ∀ e ∈ order.iter s.traces, approx_bytes e.2 = some (charge e.2) := fun e he => by
      obtain ⟨b, hb⟩ := Option.isSome_iff_exists.mp (h e.1 e.2 (order.mem_iter_lookup.mp he))
      rw [charge, hb]
      rfl
    rw [total_approx_bytes, mapM_of_forall hall]
    exact congrArg some (order.sum_map (fun _ t => charge t) s.traces)
  constructor
  · intro h
    have hall : ∀ id t, s.trace id = some t → (approx_bytes t).isSome := fun id t ht => by
      rw [total_approx_bytes, Option.bind_eq_bind, Option.bind_eq_some_iff] at h
      obtain ⟨w, hw, _⟩ := h
      exact isSome_of_mapM hw ⟨id, t⟩ (order.mem_iter_lookup.mpr ht)
    exact ⟨hall, Option.some.inj (h.symm.trans (hsum hall))⟩
  · rintro ⟨hall, rfl⟩
    exact hsum hall

/-- The trace the sweep picks is resident, and none is older. -/
theorem oldest_spec {id : TraceId} (h : s.oldest order = some id) :
    ∃ t, s.trace id = some t ∧ ∀ id' t', s.trace id' = some t' →
      t.last_activity_unix_nano.toNat ≤ t'.last_activity_unix_nano.toNat := by
  obtain ⟨⟨id, t⟩, he, rfl⟩ := Option.map_eq_some_iff.mp h
  refine ⟨t, order.mem_iter_lookup.mp (List.argmin_mem he), fun id' t' ht' => ?_⟩
  exact List.le_of_mem_argmin (f := fun e : Σ _ : TraceId, Trace =>
    e.2.last_activity_unix_nano.toNat) (order.mem_iter_lookup.mpr ht') he

theorem oldest_isSome (h : 0 < s.trace_count) : ∃ id, s.oldest order = some id := by
  rw [trace_count, ← order.length_iter] at h
  cases he : (order.iter s.traces).argmin fun e => e.2.last_activity_unix_nano.toNat with
  | none =>
    rw [List.argmin_eq_none.mp he] at h
    exact absurd h (Nat.lt_irrefl 0)
  | some e => exact ⟨e.1, by rw [oldest, he]; rfl⟩

theorem evict_eq {id : TraceId} {t : Trace} (h : s.trace id = some t) :
    s.evict id = { s with
      traces := s.traces.erase id
      evicted_generations := s.evicted_generations.insert id t.generation
      counters := { s.counters with evicted_traces := s.counters.evicted_traces + 1 } } := by
  rw [evict, show s.traces.lookup id = some t from h]

theorem evict_count {id : TraceId} {t : Trace} (h : s.trace id = some t) :
    (s.evict id).trace_count + 1 = s.trace_count := by
  rw [evict_eq h]
  exact len_erase h

theorem trace_evict {id : TraceId} {t : Trace} (h : s.trace id = some t) (id' : TraceId) :
    (s.evict id).trace id' = if id' = id then none else s.trace id' := by
  rw [evict_eq h]
  exact lookup_erase _ _ _

/-! ## The loop -/

/-- The turns of one sweep, from `s` to `s'`. -/
inductive Sweep (order : TraceOrder) : Store → Store → Prop
  | done {s : Store} {n : ℕ} (htotal : s.total_approx_bytes order = some n)
      (hfits : n ≤ s.max_memory_bytes ∨ s.trace_count ≤ 1) : Sweep order s s
  | turn {s s' : Store} {n : ℕ} {id : TraceId} {t : Trace}
      (htotal : s.total_approx_bytes order = some n) (hover : s.max_memory_bytes < n)
      (hcount : 1 < s.trace_count) (hid : s.trace id = some t)
      (hold : ∀ id' t', s.trace id' = some t' →
        t.last_activity_unix_nano.toNat ≤ t'.last_activity_unix_nano.toNat)
      (hrest : Sweep order (s.evict id) s') : Sweep order s s'

/-- As many turns as there are traces are enough: the loop stops on its own. -/
theorem sweep_of_evict_loop {turns : ℕ} (hturns : s.trace_count ≤ turns)
    (h : evict_loop order turns s = some s') : Sweep order s s' := by
  induction turns generalizing s with
  | zero =>
    -- no trace at all, so the estimate of none of them panics
    obtain rfl : s = s' := by simpa [evict_loop] using h
    have hall : ∀ id t, s.trace id = some t → (approx_bytes t).isSome := fun id t ht => by
      have := evict_count ht
      omega
    exact .done (total_approx_bytes_eq_some.mpr ⟨hall, rfl⟩) (Or.inr (by omega))
  | succ turns ih =>
    rw [evict_loop, Option.bind_eq_bind, Option.bind_eq_some_iff] at h
    obtain ⟨n, hn, h⟩ := h
    by_cases hc : n > s.max_memory_bytes ∧ s.trace_count > 1
    · -- a turn takes a trace, so one turn fewer is enough for the rest
      obtain ⟨id, hid⟩ : ∃ id, s.oldest order = some id := oldest_isSome (by omega)
      obtain ⟨t, ht, hold⟩ := oldest_spec hid
      rw [if_pos hc, hid] at h
      have := evict_count ht
      exact .turn hn hc.1 hc.2 ht hold (ih (by omega) h)
    · rw [if_neg hc, Option.pure_def, Option.some.injEq] at h
      subst h
      exact .done hn (by omega)

theorem sweep_of_evict (h : s.evict_over_budget order = some s') : Sweep order s s' :=
  sweep_of_evict_loop (Nat.le_refl _) h

/-- A sweep panics only where the estimate of some resident trace does. -/
theorem evict_loop_isSome {turns : ℕ}
    (h : ∀ id t, s.trace id = some t → (approx_bytes t).isSome) :
    ∃ s', evict_loop order turns s = some s' := by
  induction turns generalizing s with
  | zero => exact ⟨s, rfl⟩
  | succ turns ih =>
    have hn : s.total_approx_bytes order = some (total (fun _ t => charge t) s.traces) :=
      total_approx_bytes_eq_some.mpr ⟨h, rfl⟩
    rw [evict_loop, hn, Option.bind_eq_bind, Option.bind_some]
    by_cases hc : total (fun _ t => charge t) s.traces > s.max_memory_bytes ∧ s.trace_count > 1
    · obtain ⟨id, hid⟩ : ∃ id, s.oldest order = some id := oldest_isSome (by omega)
      obtain ⟨t, ht, _⟩ := oldest_spec hid
      rw [if_pos hc, hid]
      refine ih fun id' t' ht' => h id' t' ?_
      rw [trace_evict ht] at ht'
      by_cases hid' : id' = id
      · rw [if_pos hid'] at ht'
        cases ht'
      · rwa [if_neg hid'] at ht'
    · rw [if_neg hc]
      exact ⟨s, rfl⟩

/-- One trace is never evicted. -/
theorem evict_of_single (h : ∀ id t, s.trace id = some t → (approx_bytes t).isSome)
    (hcount : s.trace_count ≤ 1) : s.evict_over_budget order = some s := by
  rw [evict_over_budget]
  cases hn : s.trace_count with
  | zero => rfl
  | succ turns =>
    rw [evict_loop, total_approx_bytes_eq_some.mpr ⟨h, rfl⟩, Option.bind_eq_bind, Option.bind_some,
      if_neg (by omega)]
    rfl

/-! ## What a sweep leaves alone -/

/-- `s'` is `s` without some of its traces, whose generations are remembered. -/
structure Swept (s s' : Store) : Prop where
  key_interner : s'.key_interner = s.key_interner
  service_interner : s'.service_interner = s.service_interner
  max_memory_bytes : s'.max_memory_bytes = s.max_memory_bytes
  kept : ∀ id t, s'.trace id = some t → s.trace id = some t
  evicted : ∀ id, s'.trace id = none → s'.evicted_generations.lookup id
    = ((s.trace id).map (·.generation)).or (s.evicted_generations.lookup id)
  resident : ∀ id, (s'.trace id).isSome →
    s'.evicted_generations.lookup id = s.evicted_generations.lookup id
  counters : s'.counters = { s.counters with evicted_traces := s'.counters.evicted_traces }
  evicted_traces :
    s'.counters.evicted_traces + s'.trace_count = s.counters.evicted_traces + s.trace_count

theorem Swept.refl (s : Store) : Swept s s where
  key_interner := rfl
  service_interner := rfl
  max_memory_bytes := rfl
  kept _ _ h := h
  evicted id h := by rw [h]; rfl
  resident _ _ := rfl
  counters := rfl
  evicted_traces := rfl

theorem Swept.evict {id : TraceId} {t : Trace} (ht : s.trace id = some t) :
    Swept s (s.evict id) := by
  have hgen : ∀ id', (s.evict id).evicted_generations.lookup id'
      = if id' = id then some t.generation else s.evicted_generations.lookup id' := fun id' => by
    rw [evict_eq ht]
    exact lookup_insert _ _ _ _
  have hcount := evict_count ht
  refine ⟨?_, ?_, ?_, fun id' u hu => ?_, fun id' hn => ?_, fun id' hu => ?_, ?_, ?_⟩
  · rw [evict_eq ht]
  · rw [evict_eq ht]
  · rw [evict_eq ht]
  · rw [trace_evict ht] at hu
    by_cases he : id' = id
    · rw [if_pos he] at hu
      cases hu
    · rwa [if_neg he] at hu
  · -- the id that goes leaves its generation, the others have theirs
    rw [trace_evict ht] at hn
    rw [hgen]
    by_cases he : id' = id
    · rw [if_pos he, he, ht]
      rfl
    · rw [if_neg he] at hn
      rw [if_neg he, hn]
      rfl
  · rw [trace_evict ht] at hu
    rw [hgen]
    by_cases he : id' = id
    · rw [if_pos he] at hu
      cases hu
    · rw [if_neg he]
  · rw [evict_eq ht]
  · have : (s.evict id).counters.evicted_traces = s.counters.evicted_traces + 1 := by
      rw [evict_eq ht]
    omega

theorem Swept.trans {s₁ s₂ s₃ : Store} (h₁ : Swept s₁ s₂) (h₂ : Swept s₂ s₃) : Swept s₁ s₃ where
  key_interner := h₂.key_interner.trans h₁.key_interner
  service_interner := h₂.service_interner.trans h₁.service_interner
  max_memory_bytes := h₂.max_memory_bytes.trans h₁.max_memory_bytes
  kept id t h := h₁.kept id t (h₂.kept id t h)
  evicted id h := by
    rw [h₂.evicted id h]
    cases hm : s₂.trace id with
    | none =>
      rw [h₁.evicted id hm]
      rfl
    | some t =>
      rw [h₁.kept id t hm]
      rfl
  resident id h := by
    obtain ⟨t, ht⟩ := Option.isSome_iff_exists.mp h
    rw [h₂.resident id h, h₁.resident id (by rw [h₂.kept id t ht]; rfl)]
  counters := by rw [h₂.counters, h₁.counters]
  evicted_traces := h₂.evicted_traces.trans h₁.evicted_traces

/-- What was not resident before a sweep is not after it. -/
theorem Swept.absent (h : Swept s s') {id : TraceId} (hnone : s.trace id = none) :
    s'.trace id = none := by
  cases ht : s'.trace id with
  | none => rfl
  | some t =>
    have hold := h.kept id t ht
    rw [hnone] at hold
    cases hold

/-- A sweep that takes no trace changes nothing that is counted or stored. -/
theorem Swept.of_kept (h : Swept s s') (hkept : ∀ id, (s.trace id).isSome → (s'.trace id).isSome) :
    (∀ id, s'.trace id = s.trace id) ∧ s'.counters = s.counters := by
  have htrace : ∀ id, s'.trace id = s.trace id := fun id => by
    cases hs : s'.trace id with
    | some t => exact (h.kept id t hs).symm
    | none =>
      -- gone after the sweep, so not there before it: a sweep that took it is excluded
      cases hu : s.trace id with
      | none => rfl
      | some u =>
        have := hkept id (by rw [hu]; rfl)
        rw [hs] at this
        cases this
  have htraces : s'.traces = s.traces := Finmap.ext_lookup htrace
  have hcount : s'.trace_count = s.trace_count := by rw [trace_count, trace_count, htraces]
  have hevicted := h.evicted_traces
  refine ⟨htrace, ?_⟩
  rw [h.counters, show s'.counters.evicted_traces = s.counters.evicted_traces by omega]

theorem Sweep.swept (h : Sweep order s s') : Swept s s' := by
  induction h with
  | done => exact Swept.refl _
  | turn _ _ _ hid _ _ ih => exact (Swept.evict hid).trans ih

theorem Sweep.evicted_traces_le (h : Sweep order s s') :
    s.counters.evicted_traces ≤ s'.counters.evicted_traces := by
  induction h with
  | done => exact Nat.le_refl _
  | turn _ _ _ hid _ _ ih =>
    rw [evict_eq hid] at ih
    exact (Nat.le_succ _).trans ih

/-- A sweep that counts no eviction did nothing. -/
theorem Sweep.eq_of_evicted_traces (h : Sweep order s s')
    (he : s'.counters.evicted_traces = s.counters.evicted_traces) : s' = s := by
  cases h with
  | done => rfl
  | turn _ _ _ hid _ hrest =>
    have hle := hrest.evicted_traces_le
    rw [evict_eq hid] at hle
    exact absurd (hle.trans (Nat.le_of_eq he)) (Nat.not_succ_le_self _)

/-- After a sweep the traces fit, or one is left. -/
theorem Sweep.fits (h : Sweep order s s') :
    ∃ n, s'.total_approx_bytes order = some n
      ∧ (n ≤ s'.max_memory_bytes ∨ s'.trace_count ≤ 1) := by
  induction h with
  | done htotal hfits => exact ⟨_, htotal, hfits⟩
  | turn _ _ _ _ _ _ ih => exact ih

end Store

end Spanfall
