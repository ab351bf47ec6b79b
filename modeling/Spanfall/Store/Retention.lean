/-
`Retention.lean` -- which traces a batch's sweep may take.

A trace that receives a span is stamped with the batch's clock reading, and the
sweep takes the oldest stamps first. Nothing else protects it. So a trace of the
batch outlives the quiet ones as long as their stamps are older than the
reading, or as long as the sweep stops before it gets to stamps that recent
([`ClockAhead`]); a clock that repeats or steps back can break both.
-/
import Spanfall.Store.Writer

set_option autoImplicit false

namespace Spanfall

open Lib.HashMap Lib.Runs

/-- Whether a batch has a span for the trace `id`. -/
def SpanBatch.Receives (batch : SpanBatch) (id : TraceId) : Prop := ∃ p ∈ batch.spans, p.1 = id

/-- One turn of the writer: a batch, the clock reading it gets, and the order
its sweep walks the traces in. -/
structure WriterTurn where
  batch : SpanBatch
  now_unix_nano : UInt64
  order : TraceOrder

namespace Store

def write (s : Store) (w : WriterTurn) : Option Store :=
  s.apply_batch w.batch w.now_unix_nano w.order

/-- If the sweep took a trace of the batch, it took every other one. -/
def QuietFirst (batch : SpanBatch) (s' : Store) : Prop :=
  ∀ id, batch.Receives id → s'.trace id = none →
    ∀ id', ¬batch.Receives id' → s'.trace id' = none

/-- What the traces stamped at `now` or later are charged together. -/
def recent_bytes (s : Store) (now : UInt64) : ℕ :=
  total (fun _ t => if now.toNat ≤ t.last_activity_unix_nano.toNat then charge t else 0) s.traces

/-- The batch's clock reading is ahead of every trace that receives nothing, or
the traces it is not ahead of fit the budget, those of the batch included: the
first is read before the batch, the second when its sweep starts. -/
def ClockAhead (s : Store) (w : WriterTurn) : Prop :=
  (∀ id t, s.trace id = some t → ¬w.batch.Receives id →
      t.last_activity_unix_nano.toNat < w.now_unix_nano.toNat)
    ∨ ∀ u, s.insert_spans w.batch.spans w.now_unix_nano = some u →
        u.recent_bytes w.now_unix_nano ≤ u.max_memory_bytes

variable {s s' : Store} {order : TraceOrder} {now : UInt64}

/-- A sweep that can stop at the recent traces takes none of them. -/
theorem Sweep.recent_kept (h : Sweep order s s')
    (hfit : s.recent_bytes now ≤ s.max_memory_bytes) {id : TraceId} {t : Trace}
    (ht : s.trace id = some t) (hrecent : now.toNat ≤ t.last_activity_unix_nano.toNat) :
    s'.trace id = some t := by
  induction h with
  | done => exact ht
  | @turn s s' n v u htotal hover hcount hv hold hrest ih =>
    -- a recent victim would be the oldest of recent traces, which fit
    have hvold : ¬now.toNat ≤ u.last_activity_unix_nano.toNat := fun hu => by
      have hall : s.recent_bytes now = n := by
        rw [(total_approx_bytes_eq_some.mp htotal).2]
        refine total_congr fun e he => ?_
        rw [if_pos (hu.trans (hold e.1 e.2 (mem_entries.mp he)))]
      omega
    have hmax : (s.evict v).max_memory_bytes = s.max_memory_bytes := by rw [evict_eq hv]
    have hsame : (s.evict v).recent_bytes now = s.recent_bytes now := by
      have := total_erase (fun _ (t : Trace) =>
        if now.toNat ≤ t.last_activity_unix_nano.toNat then charge t else 0) hv
      rw [if_neg hvold, Nat.zero_add] at this
      rw [recent_bytes, recent_bytes, evict_eq hv]
      exact this
    refine ih (by rw [hsame, hmax]; exact hfit) ?_
    have hne : id ≠ v := fun e => by
      rw [e, hv, Option.some.injEq] at ht
      exact hvold (ht ▸ hrecent)
    rw [trace_evict hv, if_neg hne, ht]

/-- A sweep that takes a recent trace has taken all older ones. -/
theorem Sweep.older_first (h : Sweep order s s') {id : TraceId} {t : Trace}
    (ht : s.trace id = some t) (hrecent : now.toNat ≤ t.last_activity_unix_nano.toNat)
    (hgone : s'.trace id = none) {id' : TraceId} {t' : Trace} (ht' : s.trace id' = some t')
    (hold' : t'.last_activity_unix_nano.toNat < now.toNat) : s'.trace id' = none := by
  induction h with
  | done =>
    rw [ht] at hgone
    cases hgone
  | @turn s s' n v u _ _ _ hv hold hrest ih =>
    have hle := hold id' t' ht'
    have hne : id ≠ v := fun e => by
      rw [e, hv, Option.some.injEq] at ht
      rw [← ht] at hrecent
      omega
    by_cases he : id' = v
    · -- the older trace is this turn's victim
      exact hrest.swept.absent (by rw [trace_evict hv, if_pos he])
    · refine ih ?_ hgone ?_
      · rw [trace_evict hv, if_neg hne, ht]
      · rw [trace_evict hv, if_neg he, ht']

/-- **The step lemma**: one batch whose clock is ahead. -/
theorem write_quiet_first {w : WriterTurn} (hclock : s.ClockAhead w) (h : s.write w = some s') :
    QuietFirst w.batch s' := by
  intro id hid hgone id' hid'
  obtain ⟨u, hu, hsweep⟩ := apply_batch_cases h
  obtain ⟨t, ht, hlast⟩ := (inserts_trace hu id).2.1 hid
  have hrecent : w.now_unix_nano.toNat ≤ t.last_activity_unix_nano.toNat := by rw [hlast]
  obtain hahead | hfit := hclock
  · cases ht' : s.trace id' with
    | none =>
      -- what the batch does not touch and was not there is not there now
      have hu' := (inserts_trace hu id').1 fun p hp hpid => hid' ⟨p, hp, hpid⟩
      exact hsweep.swept.absent (hu'.trans ht')
    | some t' =>
      have hu' := (inserts_trace hu id').1 fun p hp hpid => hid' ⟨p, hp, hpid⟩
      exact hsweep.older_first ht hrecent hgone (hu'.trans ht') (hahead id' t' ht' hid')
  · have hfit := hfit u (by rw [insert_spans_eq_exec]; exact hu)
    rw [hsweep.recent_kept hfit ht hrecent] at hgone
    cases hgone

/-! ## Clocks that advance -/

/-- Every stamp is the reading of some batch so far. -/
theorem stamped_by_turn {m : ℕ} {ws : List WriterTurn} (h : exec write ws (new m) = some s) :
    ∀ id t, s.trace id = some t →
      ∃ w ∈ ws, t.last_activity_unix_nano = w.now_unix_nano := by
  refine exec_induction (P := fun ws s => ∀ id t, s.trace id = some t →
    ∃ w ∈ ws, t.last_activity_unix_nano = w.now_unix_nano) ?_ (fun ws s w s' _ ih hw => ?_) h
  · intro id t ht
    rw [new_trace] at ht
    cases ht
  · intro id t ht
    obtain ⟨u, hu, hsweep⟩ := apply_batch_cases hw
    have hut : u.trace id = some t := hsweep.swept.kept id t ht
    by_cases hid : w.batch.Receives id
    · obtain ⟨t', ht', hlast⟩ := (inserts_trace hu id).2.1 hid
      obtain rfl := Option.some.inj (hut.symm.trans ht')
      exact ⟨w, List.mem_append_right _ (List.mem_singleton_self w), hlast⟩
    · have hsame := (inserts_trace hu id).1 fun p hp hpid => hid ⟨p, hp, hpid⟩
      obtain ⟨w', hw', hlast⟩ := ih id t (hsame.symm.trans hut)
      exact ⟨w', List.mem_append_left _ hw', hlast⟩

/-- A clock that never repeats a reading and never steps back is ahead. -/
theorem increasing_clock_ahead {m : ℕ} {ws : List WriterTurn}
    (hincr : ws.Pairwise fun v w => v.now_unix_nano.toNat < w.now_unix_nano.toNat) :
    ∀ pre w post s, ws = pre ++ w :: post → exec write pre (new m) = some s →
      s.ClockAhead w := by
  rintro pre w post s rfl hs
  refine Or.inl fun id t ht _ => ?_
  obtain ⟨v, hv, hlast⟩ := stamped_by_turn hs id t ht
  rw [hlast]
  exact (List.pairwise_append.mp hincr).2.2 v hv w List.mem_cons_self

/-- A turn that sends one span. -/
def single_span (id : TraceId) (span : NewSpan) (now_unix_nano : UInt64) : WriterTurn where
  batch := SpanBatch.of_span id span
  now_unix_nano := now_unix_nano
  order := TraceOrder.by_id

/-- The first of two traces that do not fit together. -/
def quiet_turn : WriterTurn := single_span (tid 1) (Trace.span 1 none "a") 10

/-- The second, for a clock that reads `now`. -/
def busy_turn (now : UInt64) : WriterTurn := single_span (tid 2) (Trace.span 2 none "b") now

theorem quiet_turn_ends : (exec write [quiet_turn] (new 100)).isSome := by decide +kernel

theorem busy_turn_ends :
    ((Option.get _ quiet_turn_ends).write (busy_turn 20)).isSome
      ∧ ((Option.get _ quiet_turn_ends).write (busy_turn 5)).isSome := by
  decide +kernel

/-- **A trace still receiving spans is not evicted in favour of a quieter one**
in any run of the writer whose clock is ahead at every batch. -/
theorem quiet_evicted_first {m : ℕ} {ws : List WriterTurn}
    (hclock : ∀ pre w post s, ws = pre ++ w :: post → exec write pre (new m) = some s →
      s.ClockAhead w) :
    ∀ pre w post s s', ws = pre ++ w :: post → exec write pre (new m) = some s →
      s.write w = some s' → QuietFirst w.batch s' :=
  fun pre w post s _ hws hs hw => write_quiet_first (hclock pre w post s hws hs) hw

theorem quiet_evicted_first_advancing :
    ∃ s s', exec write [quiet_turn] (new 100) = some s ∧ s.write (busy_turn 20) = some s'
      ∧ QuietFirst (busy_turn 20).batch s' := by
  have hs := (Option.some_get quiet_turn_ends).symm
  have hs' := (Option.some_get busy_turn_ends.1).symm
  exact ⟨_, _, hs, hs', @quiet_evicted_first 100 [quiet_turn, busy_turn 20]
    (increasing_clock_ahead (by decide)) [quiet_turn] (busy_turn 20) [] _ _ rfl hs hs'⟩

/-- A clock that steps back from 10 to 5 stamps the trace of the batch below
the quiet one, and the sweep takes it instead. -/
theorem stepped_back_clock_evicts_receiver :
    ∃ s s', exec write [quiet_turn] (new 100) = some s ∧ s.write (busy_turn 5) = some s'
      ∧ ¬QuietFirst (busy_turn 5).batch s' := by
  have hs := (Option.some_get quiet_turn_ends).symm
  have hs' := (Option.some_get busy_turn_ends.2).symm
  refine ⟨_, _, hs, hs', fun hquiet => ?_⟩
  have hgone := hquiet (tid 2) ⟨_, List.mem_singleton_self _, rfl⟩ (by decide +kernel) (tid 1)
    (by rintro ⟨p, hp, hpid⟩; rw [List.mem_singleton.mp hp] at hpid; exact absurd hpid (by decide))
  exact absurd hgone (by decide +kernel)

end Store

end Spanfall
