/-
`Ledger.lean` -- the counters as a ledger of the run.

Four quantities are updated apart from each other: the evictions, the late
spans, the duplicates and the table of evicted generations. Two equations tie
them together. Every eviction is a generation that is still remembered or a
resurrection that took one out of the table. Every insert is a row of a
resident trace, a duplicate, or a row that went with an evicted trace; the last
kind the store does not count, so the run does ([`spans_evicted`]). Both are
kept by every event ([`Ledger.step`]).

The generations count evictions in 32 bits, and wrap.
-/
import Spanfall.Store.Bookkeeping
import Spanfall.Store.Retention

set_option autoImplicit false

namespace Spanfall

open Lib.HashMap Lib.Runs

/-! ## What one event adds -/

/-- An insert adds a row, or counts as a duplicate. -/
theorem Trace.insert_span_count {t t' : Trace} {span : NewSpan} {svc : Option UInt32}
    {I I' : Interner} {now : UInt64} {out : InsertOutcome}
    (h : t.insert span svc I now = some (t', I', out)) :
    t'.span_count + out.is_duplicate.toNat = t.span_count + 1 := by
  obtain ⟨_, ⟨idx, _, rfl, ho⟩ | ⟨_, rfl, hp⟩⟩ := insert_cases h
  · obtain ⟨_, _, _, hids, _⟩ := overwrite_at_frame ho
    rw [span_count, hids]
    rfl
  · obtain ⟨hids, _⟩ := push_charged hp
    rw [span_count, hids, List.length_append]
    rfl

namespace Store

/-- The number of insert calls among the events. -/
def insert_calls (es : List Event) : ℕ := (es.flatMap Event.trace_ids).length

/-- The spans of the traces that are gone after the event. -/
def spans_gone (s s' : Store) : ℕ :=
  total (fun id t => if (s'.trace id).isNone then t.span_count else 0) s.traces

/-- The span counts that the evicted traces had when they were evicted. -/
def spans_evicted (es : List Event) (s : Store) : ℕ :=
  ghost step (fun n s _ s' => n + spans_gone s s') es s 0

/-- The spans of the resident traces. -/
def spans_resident (s : Store) : ℕ := total (fun _ t => t.span_count) s.traces

/-- The two equations, after `inserted` insert calls and the loss of `evicted`
spans. -/
structure Ledger (s : Store) (inserted evicted : ℕ) : Prop where
  evictions : s.counters.evicted_traces
    = s.counters.late_span_after_eviction + len s.evicted_generations
  inserts : inserted = s.spans_resident + s.counters.duplicate_span + evicted

theorem new_ledger (m : ℕ) : (new m).Ledger 0 0 where
  evictions := by simp [new, Counters.default]
  inserts := rfl

variable {s s' : Store} {inserted evicted : ℕ}

/-- Where every trace stays, no span is gone. -/
theorem spans_gone_of_kept (h : ∀ id, (s.trace id).isSome → (s'.trace id).isSome) :
    spans_gone s s' = 0 := by
  have hzero : spans_gone s s' = total (fun _ _ => 0 * 0) s.traces := by
    refine total_congr fun e he => ?_
    have hres := h e.1 (Option.isSome_of_eq_some (mem_entries.mp he))
    rw [if_neg (by rw [Option.isNone_iff_eq_none, ← Option.not_isSome_iff_eq_none]; exact
      not_not_intro hres)]
  rw [hzero, total_mul, Nat.zero_mul]

/-- A sweep splits the spans into those that stay and those that go. -/
theorem Sweep.spans_split {order : TraceOrder} (h : Sweep order s s') :
    s.spans_resident = s'.spans_resident + spans_gone s s' := by
  induction h with
  | done => rw [spans_gone_of_kept fun _ h => h, Nat.add_zero]
  | @turn s s' n v t _ _ _ hv _ hrest ih =>
    have hgone : s'.trace v = none :=
      hrest.swept.absent (by rw [trace_evict hv, if_pos rfl])
    have hrow := total_erase (fun _ (t : Trace) => t.span_count) hv
    have hlost := total_erase
      (fun id (t : Trace) => if (s'.trace id).isNone then t.span_count else 0) hv
    rw [if_pos (by rw [hgone]; rfl)] at hlost
    rw [evict_eq hv] at ih
    unfold spans_resident spans_gone at ih ⊢
    dsimp only at ih
    omega

/-! ## One event -/

/-- **An insert** takes a generation out of the table exactly when it counts a
late span, and adds a row exactly when it counts no duplicate. -/
theorem Ledger.insert (h : s.Ledger inserted evicted) {trace_id : TraceId} {span : NewSpan}
    {now : UInt64} {out : StoreInsertOutcome}
    (hins : s.insert_span_no_evict trace_id span now = some (s', out)) :
    s'.Ledger (inserted + 1) evicted := by
  obtain ⟨t', o, hcall, htraces, _, _, hevicted, hcounters, _⟩ := insert_cases hins
  have hcount := Trace.insert_span_count hcall
  obtain ⟨hev, hin⟩ := h
  have hrows : s'.spans_resident
      = t'.span_count + total (fun _ t => t.span_count) (s.traces.erase trace_id) := by
    rw [spans_resident, htraces]
    exact total_insert _ _ _ _
  rw [spans_resident] at hin
  cases hu : s.trace trace_id with
  | some u =>
    have hres : (s.traces.lookup trace_id).isNone = false := by
      rw [show s.traces.lookup trace_id = some u from hu]
      rfl
    rw [entry_of_some hu] at hcount hevicted
    have hold := total_erase (fun _ (t : Trace) => t.span_count) hu
    constructor
    · rw [hcounters, hevicted, hres]
      simpa using hev
    · rw [hcounters, hrows]
      dsimp only at hcount hold ⊢
      omega
  | none =>
    have hres : (s.traces.lookup trace_id).isNone = true := by
      rw [show s.traces.lookup trace_id = none from hu]
      rfl
    rw [entry_of_none hu] at hcount hevicted
    have hsame := erase_of_notMem hu
    constructor
    · -- a new incarnation; whether it is late decides if the table shrinks
      rw [hcounters, hevicted, hres]
      dsimp only
      cases hg : s.evicted_generations.lookup trace_id with
      | none =>
        rw [erase_of_notMem hg]
        simpa using hev
      | some g =>
        have hlen := len_erase hg
        simp only [Option.isSome_some, Bool.and_self, Bool.toNat_true]
        omega
    · rw [hcounters, hrows, hsame]
      have hzero : ({ Trace.new trace_id now with generation := s.next_generation trace_id }
          : Trace).span_count = 0 := rfl
      dsimp only at hcount hzero ⊢
      omega

/-- **A sweep** moves an entry into the table with every trace it counts. -/
theorem Ledger.sweep (h : s.Ledger inserted evicted) {order : TraceOrder}
    (hsweep : Sweep order s s') (hsame : s'.remembered = s.remembered) :
    s'.Ledger inserted (evicted + spans_gone s s') := by
  have hswept := hsweep.swept
  have hcount := hswept.evicted_traces
  have hcounters := hswept.counters
  have hsplit := hsweep.spans_split
  obtain ⟨hev, hin⟩ := h
  rw [remembered, remembered] at hsame
  constructor
  · have hlate := congrArg Counters.late_span_after_eviction hcounters
    dsimp only at hlate
    omega
  · have hdup := congrArg Counters.duplicate_span hcounters
    dsimp only at hdup
    omega

/-- **The step lemma.** The ids the store remembers are those ingested, so a
sweep, which ingests none, leaves their number alone. -/
theorem Ledger.step {m : ℕ} {es : List Event} {e : Event}
    (hs : exec step es (new m) = some s) (he : s.step e = some s')
    (h : s.Ledger (insert_calls es) (spans_evicted es (new m))) :
    s'.Ledger (insert_calls (es ++ [e])) (spans_evicted (es ++ [e]) (new m)) := by
  have hghost : spans_evicted (es ++ [e]) (new m)
      = spans_evicted es (new m) + spans_gone s s' := ghost_snoc hs he _
  have hcalls : insert_calls (es ++ [e]) = insert_calls es + e.trace_ids.length := by
    rw [insert_calls, List.flatMap_append, List.flatMap_singleton, List.length_append]
    rfl
  rw [hghost, hcalls]
  cases e with
  | insert trace_id span now =>
    have hkept : ∀ id, (s.trace id).isSome → (s'.trace id).isSome := by
      intro id hid
      obtain ⟨t', htrace, _⟩ := step_insert he
      rw [htrace]
      by_cases heq : id = trace_id
      · rw [if_pos heq]
        rfl
      · rwa [if_neg heq]
    obtain ⟨⟨s₁, out⟩, hins, rfl⟩ := Option.map_eq_some_iff.mp he
    rw [spans_gone_of_kept hkept]
    exact h.insert hins
  | malformed count =>
    have hkept : ∀ id, (s.trace id).isSome → (s'.trace id).isSome := by
      obtain rfl := Option.some.inj he
      exact fun _ hid => hid
    rw [spans_gone_of_kept hkept]
    obtain rfl := Option.some.inj he
    exact ⟨h.evictions, h.inserts⟩
  | sweep order =>
    -- a sweep forgets no id
    have hids := remembered_after_sweep hs he
    rw [← (remembers_of_run hs).card] at hids
    exact h.sweep (sweep_of_evict he) hids

/-! ## Runs -/

/-- **The counters are a ledger of the run.** The generations are exact as far
as 32 bits count. -/
theorem ledger_of_run {m : ℕ} {es : List Event} (h : exec step es (new m) = some s) :
    (∀ id, (s.trace id).isSome → s.evicted_generations.lookup id = none)
      ∧ s.counters.evicted_traces
        = s.counters.late_span_after_eviction + len s.evicted_generations
      ∧ (∀ id t, s.trace id = some t →
          t.generation.toNat = evictions es (new m) id % 2 ^ 32)
      ∧ (∀ id g, s.evicted_generations.lookup id = some g →
          (g.toNat + 1) % 2 ^ 32 = evictions es (new m) id % 2 ^ 32)
      ∧ insert_calls es = s.spans_resident + s.counters.duplicate_span
          + spans_evicted es (new m) := by
  have hledger : s.Ledger (insert_calls es) (spans_evicted es (new m)) :=
    exec_induction (P := fun es s => s.Ledger (insert_calls es) (spans_evicted es (new m)))
      (new_ledger m) (fun es s e s' hs ih he => ih.step hs he) h
  have honce := (remembers_of_run h).once
  refine ⟨honce, hledger.evictions, fun id t ht => ?_, fun id g hg => ?_, hledger.inserts⟩
  · rw [(generations_of_run h id).1 t ht, UInt32.toNat_ofNat']
  · have hnone : s.trace id = none := by
      by_contra hne
      rw [honce id (Option.isSome_iff_ne_none.mpr hne)] at hg
      cases hg
    have hnext := (generations_of_run h id).2 hnone
    rw [next_generation_of_evicted hg] at hnext
    have hnat := congrArg UInt32.toNat hnext
    rwa [UInt32.toNat_add, UInt32.toNat_ofNat'] at hnat

/-- A resurrection with a duplicate behind it. -/
def resurrection_resent : List Event :=
  resurrection ++ [.insert (tid 1) (Trace.span 3 none "c") 3]

theorem resurrection_resent_runs : (exec step resurrection_resent (new 80)).isSome := by
  decide +kernel

theorem ledger_of_run_resurrection :
    ∃ s, exec step resurrection_resent (new 80) = some s
      ∧ s.counters.evicted_traces = s.counters.late_span_after_eviction + len s.evicted_generations
      ∧ insert_calls resurrection_resent = s.spans_resident + s.counters.duplicate_span
          + spans_evicted resurrection_resent (new 80) := by
  have h := (Option.some_get resurrection_resent_runs).symm
  obtain ⟨_, hevictions, _, _, hinserts⟩ := ledger_of_run h
  exact ⟨_, h, hevictions, hinserts⟩

/-! ## Past 32 bits -/

/-- A span of trace 1, at time 0. -/
def visit : Event := .insert (tid 1) (Trace.span 1 none "a") 0

/-- A span of trace 2, at time 1. -/
def displace : Event := .insert (tid 2) (Trace.span 2 none "b") 1

/-- Trace 1 comes back, and trace 2 drives it out again. -/
def turnover : List Event := [visit, displace, .sweep TraceOrder.by_id]

def turnovers : ℕ → List Event
  | 0 => []
  | n + 1 => turnovers n ++ turnover

theorem attrs_sent_turnovers (n : ℕ) : attrs_sent (turnovers n) = 0 := by
  induction n with
  | zero => rfl
  | succ n ih =>
    rw [attrs_sent, turnovers, keys_shown_append, List.length_append]
    rw [attrs_sent] at ih
    rw [ih]
    rfl

/-- Of two traces that do not fit together a sweep keeps the newer one. -/
theorem newer_survives {m : ℕ} {es : List Event} {order : TraceOrder}
    (hs : exec step es (new m) = some s) (hsweep : s.evict_over_budget order = some s')
    (hm : m < 2 * APPROX_SPAN_FIXED_BYTES) {id₁ id₂ : TraceId} {t₁ t₂ : Trace} (hne : id₁ ≠ id₂)
    (ht₁ : s.trace id₁ = some t₁) (ht₂ : s.trace id₂ = some t₂)
    (hlt : t₁.last_activity_unix_nano.toNat < t₂.last_activity_unix_nano.toNat) :
    s'.trace id₁ = none := by
  by_contra hkept
  -- one trace is all that fits, so the newer one is gone, and the older one before it
  have hone : s'.trace_count ≤ 1 := by
    by_contra hmany
    have hfew := few_after_sweep hs hsweep (by omega)
    rw [APPROX_SPAN_FIXED_BYTES] at hfew hm
    omega
  have hgone : s'.trace id₂ = none := by
    by_contra hboth
    have hkeys := Finset.card_le_one.mp hone id₁ (mem_keys.mpr (Option.isSome_iff_ne_none.mpr hkept))
      id₂ (mem_keys.mpr (Option.isSome_iff_ne_none.mpr hboth))
    exact hne hkeys
  exact hkept ((sweep_of_evict hsweep).older_first ht₂ (Nat.le_refl _) hgone ht₁ hlt)

/-- One turnover is one eviction of trace 1, wherever the run stands. -/
theorem turnover_evicts {es : List Event} (hs : exec step es (new 100) = some s)
    (h : exec step turnover s = some s') :
    evictions (es ++ turnover) (new 100) (tid 1) = evictions es (new 100) (tid 1) + 1 := by
  rw [turnover, exec_cons, Option.bind_eq_some_iff] at h
  obtain ⟨s₁, h₁, h⟩ := h
  rw [exec_cons, Option.bind_eq_some_iff] at h
  obtain ⟨s₂, h₂, h⟩ := h
  rw [exec_cons, Option.bind_eq_some_iff] at h
  obtain ⟨s₃, h₃, _⟩ := h
  obtain ⟨t₁, htrace₁, hlast₁, _⟩ := step_insert h₁
  obtain ⟨t₂, htrace₂, hlast₂, _⟩ := step_insert h₂
  have hne : tid 1 ≠ tid 2 := by decide
  have hback : s₁.trace (tid 1) = some t₁ := by rw [htrace₁, if_pos rfl]
  have hstays : s₂.trace (tid 1) = some t₁ := by rw [htrace₂, if_neg hne, hback]
  have hother : s₂.trace (tid 2) = some t₂ := by rw [htrace₂, if_pos rfl]
  -- the run up to each of the three events
  have hs₁ : exec step (es ++ [visit]) (new 100) = some s₁ := exec_tail hs h₁
  have hs₂ : exec step (es ++ [visit] ++ [displace]) (new 100) = some s₂ := exec_tail hs₁ h₂
  have hgone : s₃.trace (tid 1) = none := by
    refine newer_survives hs₂ h₃ (by decide) hne hstays hother ?_
    rw [hlast₁, hlast₂]
    decide
  have hsplit : es ++ turnover
      = es ++ [visit] ++ [displace] ++ [.sweep TraceOrder.by_id] := by
    rw [List.append_assoc, List.append_assoc]
    rfl
  rw [hsplit, evictions_snoc hs₂ h₃, evictions_snoc hs₁ h₂, evictions_snoc hs h₁,
    hback, hstays, hgone]
  simp

theorem evictions_turnovers {n : ℕ} (hs : exec step (turnovers n) (new 100) = some s) :
    evictions (turnovers n) (new 100) (tid 1) = n := by
  induction n generalizing s with
  | zero => rfl
  | succ n ih =>
    rw [turnovers] at hs ⊢
    obtain ⟨u, hu, hturn⟩ := exec_append_some hs
    rw [turnover_evicts hu hturn, ih hu]

/-- So a trace can be evicted any number of times, and come back. -/
theorem turnovers_run (n : ℕ) :
    ∃ s t, exec step (turnovers n ++ [visit]) (new 100) = some s ∧ s.trace (tid 1) = some t
      ∧ evictions (turnovers n ++ [visit]) (new 100) (tid 1) = n := by
  have hsent : attrs_sent (turnovers n ++ [visit]) < 2 ^ 32 := by
    have hnone := attrs_sent_turnovers n
    rw [attrs_sent] at hnone
    rw [attrs_sent, keys_shown_append, List.length_append, hnone]
    decide
  obtain ⟨s', hs', _⟩ := run_holds 100 _ (AttrsBelow.of_sent hsent)
  obtain ⟨s, hs, hlast⟩ := exec_snoc_some hs'
  obtain ⟨t, htrace, _⟩ := step_insert hlast
  have hback : s'.trace (tid 1) = some t := by rw [htrace, if_pos rfl]
  refine ⟨s', t, hs', hback, ?_⟩
  rw [evictions_snoc hs hlast, hback, if_neg (by simp), Nat.add_zero, evictions_turnovers hs]

/-- Evicted `2 ^ 32` times, trace 1 is back in generation 0. -/
theorem generation_wraps :
    ∃ s t, exec step (turnovers (2 ^ 32) ++ [visit]) (new 100) = some s
      ∧ s.trace (tid 1) = some t
      ∧ t.generation.toNat
        ≠ evictions (turnovers (2 ^ 32) ++ [visit]) (new 100) (tid 1) := by
  obtain ⟨s, t, hs, ht, hcount⟩ := turnovers_run (2 ^ 32)
  refine ⟨s, t, hs, ht, ?_⟩
  rw [hcount]
  exact Nat.ne_of_lt t.generation.toNat_lt

end Store

end Spanfall
