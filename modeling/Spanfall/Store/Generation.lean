/-
`Generation.lean` -- the life of one trace id, and the generations that number
its incarnations.

Seen from one id an event does one of four things: it leaves the trace alone,
adds to it, evicts it, or creates it ([`TraceStep`]). So a trace's generation
is the number of times its id has been evicted, and while it is gone that number
is one more than the remembered generation ([`Generations`]). Inside one
generation spans only get appended, which is why an index can be checked by
comparing generations ([`generation_checked`]).
-/
import Spanfall.Store.Run

set_option autoImplicit false

namespace Spanfall

open Lib.HashMap Lib.Runs

namespace Store

/-- The generation the next incarnation of an absent id gets. -/
def next_generation (s : Store) (id : TraceId) : UInt32 :=
  match s.evicted_generations.lookup id with
  | some g => g + 1
  | none => 0

/-- What one event does to the trace `id`. -/
inductive TraceStep (s s' : Store) (id : TraceId) : Prop
  | untouched (htrace : s'.trace id = s.trace id)
      (hevicted : s'.evicted_generations.lookup id = s.evicted_generations.lookup id)
  | grown (t t' : Trace) (ht : s.trace id = some t) (ht' : s'.trace id = some t')
      (hgen : t'.generation = t.generation) (hids : t.span_ids <+: t'.span_ids)
      (hevicted : s'.evicted_generations.lookup id = s.evicted_generations.lookup id)
  | evicted (t : Trace) (ht : s.trace id = some t) (hnone : s'.trace id = none)
      (hevicted : s'.evicted_generations.lookup id = some t.generation)
  | created (t' : Trace) (hnone : s.trace id = none) (ht' : s'.trace id = some t')
      (hgen : t'.generation = s.next_generation id)
      (hevicted : s'.evicted_generations.lookup id = none)

theorem entry_of_some {s : Store} {id : TraceId} {t : Trace} (h : s.trace id = some t)
    (now : UInt64) : s.entry id now = (t, s.evicted_generations) := by
  rw [entry, show s.traces.lookup id = some t from h]

theorem entry_of_none {s : Store} {id : TraceId} (h : s.trace id = none) (now : UInt64) :
    s.entry id now = ({ Trace.new id now with generation := s.next_generation id },
      s.evicted_generations.erase id) := by
  rw [entry, show s.traces.lookup id = none from h]
  rfl

/-- The four cases are all there are. -/
theorem trace_step {s s' : Store} {e : Event} (h : s.step e = some s') (id : TraceId) :
    TraceStep s s' id := by
  cases e with
  | insert trace_id span now =>
    obtain ⟨⟨s₁, out⟩, hins, rfl⟩ := Option.map_eq_some_iff.mp h
    obtain ⟨t', o, hins, htraces, _, _, hevicted, _⟩ := insert_cases hins
    obtain ⟨_, hgen, _, hids, _⟩ := Trace.insert_frame hins
    have htrace := trace_insert htraces id
    cases hu : s.trace trace_id with
    | some u =>
      -- a resident trace: the table of evicted generations is not touched
      rw [entry_of_some hu] at hevicted hgen hids
      by_cases hid : id = trace_id
      · rw [if_pos hid] at htrace
        subst hid
        exact .grown u t' hu htrace hgen hids (by rw [hevicted])
      · rw [if_neg hid] at htrace
        exact .untouched htrace (by rw [hevicted])
    | none =>
      -- a new incarnation takes its generation out of the table
      rw [entry_of_none hu] at hevicted hgen hids
      have hlookup : s₁.evicted_generations.lookup id
          = if id = trace_id then none else s.evicted_generations.lookup id := by
        rw [hevicted]
        exact lookup_erase _ _ _
      by_cases hid : id = trace_id
      · rw [if_pos hid] at htrace hlookup
        subst hid
        exact .created t' hu htrace hgen hlookup
      · rw [if_neg hid] at htrace hlookup
        exact .untouched htrace hlookup
  | malformed count =>
    obtain rfl := Option.some.inj h
    exact .untouched rfl rfl
  | sweep order =>
    have hswept := (sweep_of_evict h).swept
    cases hs' : s'.trace id with
    | some t => exact .untouched (hs'.trans (hswept.kept id t hs').symm) (hswept.resident id (by
        rw [hs']
        rfl))
    | none =>
      have hgone := hswept.evicted id hs'
      cases hs : s.trace id with
      | some t =>
        rw [hs] at hgone
        exact .evicted t hs hs' hgone
      | none =>
        rw [hs] at hgone
        exact .untouched (hs'.trans hs.symm) hgone

/-! ## Counting evictions -/

/-- One more eviction of every trace that the event takes. -/
def count_eviction (n : TraceId → ℕ) (s : Store) (_ : Event) (s' : Store) : TraceId → ℕ :=
  fun id => n id + if (s.trace id).isSome ∧ (s'.trace id).isNone then 1 else 0

/-- How often each trace id is evicted along the run. -/
def evictions (es : List Event) (s : Store) : TraceId → ℕ :=
  ghost step count_eviction es s fun _ => 0

theorem evictions_snoc {es : List Event} {e : Event} {s₀ s s' : Store}
    (hs : exec step es s₀ = some s) (he : s.step e = some s') (id : TraceId) :
    evictions (es ++ [e]) s₀ id
      = evictions es s₀ id + if (s.trace id).isSome ∧ (s'.trace id).isNone then 1 else 0 := by
  rw [evictions, ghost_snoc hs he]
  rfl

/-- Evictions are only ever added. -/
theorem evictions_mono {es fs : List Event} {s₀ s₁ s₂ : Store} (h₁ : exec step es s₀ = some s₁)
    (h₂ : exec step fs s₁ = some s₂) (id : TraceId) :
    evictions es s₀ id ≤ evictions (es ++ fs) s₀ id := by
  refine exec_induction (P := fun fs _ => evictions es s₀ id ≤ evictions (es ++ fs) s₀ id) ?_
    (fun fs s e s' hs ih he => ?_) h₂
  · rw [List.append_nil]
  · have hes : exec step (es ++ fs) s₀ = some s := exec_trans h₁ hs
    rw [← List.append_assoc, evictions_snoc hes he]
    exact ih.trans (Nat.le_add_right _ _)

/-- The generations number the incarnations: `n id` evictions have been. -/
def Generations (s : Store) (n : TraceId → ℕ) : Prop :=
  ∀ id, (∀ t, s.trace id = some t → t.generation = UInt32.ofNat (n id))
    ∧ (s.trace id = none → s.next_generation id = UInt32.ofNat (n id))

theorem next_generation_of_evicted {s : Store} {id : TraceId} {g : UInt32}
    (h : s.evicted_generations.lookup id = some g) : s.next_generation id = g + 1 := by
  rw [next_generation, h]

theorem Generations.step {s s' : Store} {n : TraceId → ℕ} {e : Event} (h : s.Generations n)
    (hs : s.step e = some s') : s'.Generations (count_eviction n s e s') := by
  intro id
  obtain ⟨hres, habs⟩ := h id
  unfold count_eviction
  cases trace_step hs id with
  | untouched htrace hevicted =>
    have hnot : ¬((s.trace id).isSome ∧ (s'.trace id).isNone) := by
      rw [htrace]
      cases s.trace id <;> simp
    rw [if_neg hnot, Nat.add_zero, htrace, next_generation, hevicted]
    exact ⟨hres, habs⟩
  | grown t t' ht ht' hgen _ _ =>
    rw [ht', if_neg (by simp), Nat.add_zero]
    refine ⟨fun u hu => ?_, nofun⟩
    rw [← Option.some.inj hu, hgen]
    exact hres t ht
  | evicted t ht hnone hevicted =>
    -- the count goes up by one, and so does the generation the next incarnation gets
    rw [ht, hnone, if_pos (by simp)]
    refine ⟨nofun, fun _ => ?_⟩
    rw [next_generation_of_evicted hevicted, hres t ht, UInt32.ofNat_add]
    rfl
  | created t' hnone ht' hgen _ =>
    rw [ht', if_neg (by simp), Nat.add_zero]
    refine ⟨fun u hu => ?_, nofun⟩
    rw [← Option.some.inj hu, hgen]
    exact habs hnone

theorem generations_of_run {m : ℕ} {es : List Event} {s : Store}
    (h : exec step es (new m) = some s) : s.Generations (evictions es (new m)) := by
  refine exec_induction (P := fun es s => s.Generations (evictions es (new m))) (fun id => ?_)
    (fun es s e s' hs ih he => ?_) h
  · refine ⟨fun t ht => ?_, fun _ => ?_⟩
    · rw [new_trace] at ht
      cases ht
    · rw [next_generation, new, Finmap.lookup_empty]
      rfl
  · rw [evictions, ghost_snoc hs he]
    exact ih.step he

/-! ## Inside one generation -/

/-- While a trace is not evicted its spans keep their indices. -/
theorem span_ids_kept {es fs : List Event} {s₀ s₁ s₂ : Store} (h₁ : exec step es s₀ = some s₁)
    (h₂ : exec step fs s₁ = some s₂) {id : TraceId} {t₁ : Trace} (ht₁ : s₁.trace id = some t₁)
    (hsame : evictions (es ++ fs) s₀ id = evictions es s₀ id) :
    ∃ t₂, s₂.trace id = some t₂ ∧ t₂.generation = t₁.generation
      ∧ t₁.span_ids <+: t₂.span_ids := by
  refine exec_induction (P := fun fs s => evictions (es ++ fs) s₀ id = evictions es s₀ id →
    ∃ t, s.trace id = some t ∧ t.generation = t₁.generation ∧ t₁.span_ids <+: t.span_ids)
    (fun _ => ⟨t₁, ht₁, rfl, List.prefix_refl _⟩) (fun fs s e s' hs ih he hsame => ?_) h₂ hsame
  have hes : exec step (es ++ fs) s₀ = some s := exec_trans h₁ hs
  rw [← List.append_assoc, evictions_snoc hes he] at hsame
  have hmono := evictions_mono h₁ hs id
  obtain ⟨t, ht, hgen, hids⟩ := ih (by omega)
  cases trace_step he id with
  | untouched htrace _ => exact ⟨t, htrace.trans ht, hgen, hids⟩
  | grown u u' hu hu' hgen' hids' _ =>
    obtain rfl := Option.some.inj (ht.symm.trans hu)
    exact ⟨u', hu', hgen'.trans hgen, hids.trans hids'⟩
  | evicted u hu hnone _ =>
    -- that would be one eviction more than `hsame` allows
    rw [hu, hnone, if_pos (by simp)] at hsame
    omega
  | created u' hnone _ _ _ =>
    rw [ht] at hnone
    cases hnone

/-- **A generation-checked reference never points at another span.** Two states
of a run that show a trace in the same generation agree on every index of the
first; and an eviction in between makes the later generation larger. -/
theorem generation_checked {m : ℕ} {es fs : List Event} {s₁ s₂ : Store}
    (h₁ : exec step es (new m) = some s₁) (h₂ : exec step fs s₁ = some s₂) {id : TraceId}
    {t₁ t₂ : Trace} (ht₁ : s₁.trace id = some t₁) (ht₂ : s₂.trace id = some t₂)
    (hfew : evictions (es ++ fs) (new m) id < 2 ^ 32) :
    (t₁.generation = t₂.generation →
        ∀ i, i < t₁.span_count → i < t₂.span_count ∧ t₂.span_id i = t₁.span_id i)
      ∧ (evictions es (new m) id < evictions (es ++ fs) (new m) id →
        t₁.generation < t₂.generation) := by
  have h₁₂ : exec step (es ++ fs) (new m) = some s₂ := exec_trans h₁ h₂
  have hmono := evictions_mono h₁ h₂ id
  have hg₁ := (generations_of_run h₁ id).1 t₁ ht₁
  have hg₂ := (generations_of_run h₁₂ id).1 t₂ ht₂
  have hn₁ : t₁.generation.toNat = evictions es (new m) id := by
    rw [hg₁, UInt32.toNat_ofNat', Nat.mod_eq_of_lt (by omega)]
  have hn₂ : t₂.generation.toNat = evictions (es ++ fs) (new m) id := by
    rw [hg₂, UInt32.toNat_ofNat', Nat.mod_eq_of_lt hfew]
  constructor
  · intro hgen i hi
    -- below `2 ^ 32` evictions the generation counts them, so there was none in between
    have hsame : evictions (es ++ fs) (new m) id = evictions es (new m) id := by
      rw [← hn₁, ← hn₂, hgen]
    obtain ⟨t, ht, _, ⟨rest, hrest⟩⟩ := span_ids_kept h₁ h₂ ht₁ hsame
    obtain rfl := Option.some.inj (ht.symm.trans ht₂)
    unfold Trace.span_count Trace.span_id at *
    rw [← hrest, List.getElem?_append_left hi, List.length_append]
    exact ⟨Nat.lt_add_right _ hi, rfl⟩
  · intro hlt
    rw [UInt32.lt_iff_toNat_lt, hn₁, hn₂]
    exact hlt

/-- Trace 1 is evicted by trace 2 and comes back with a later span. -/
def resurrection : List Event :=
  [.insert (tid 1) (Trace.span 1 none "a") 0, .insert (tid 2) (Trace.span 2 none "b") 1,
    .sweep TraceOrder.by_id, .insert (tid 1) (Trace.span 3 none "c") 2]

theorem resurrection_starts : (exec step (resurrection.take 1) (new 80)).isSome := by
  decide +kernel

theorem resurrection_ends :
    (exec step (resurrection.drop 1) (Option.get _ resurrection_starts)).isSome := by
  decide +kernel

theorem generation_checked_resurrection :
    ∃ s₁ s₂ t₁ t₂, exec step (resurrection.take 1) (new 80) = some s₁
      ∧ exec step (resurrection.drop 1) s₁ = some s₂ ∧ s₁.trace (tid 1) = some t₁
      ∧ s₂.trace (tid 1) = some t₂ ∧ t₁.generation < t₂.generation := by
  have h₁ := (Option.some_get resurrection_starts).symm
  have h₂ := (Option.some_get resurrection_ends).symm
  have ht₁ := (Option.some_get (x := (Option.get _ resurrection_starts).trace (tid 1))
    (by decide +kernel)).symm
  have ht₂ := (Option.some_get (x := (Option.get _ resurrection_ends).trace (tid 1))
    (by decide +kernel)).symm
  exact ⟨_, _, _, _, h₁, h₂, ht₁, ht₂,
    (generation_checked h₁ h₂ ht₁ ht₂ (by decide +kernel)).2 (by decide +kernel)⟩

end Store

end Spanfall
