/-
`Writer.lean` -- `src/store/writer.rs`: what the writer does with one batch.

The clock is read once for the batch, its spans are inserted in order without a
sweep in between, and one sweep follows. In terms of events a batch is its
inserts, its malformed count and the sweep ([`apply_batch_eq_exec`]).
-/
import Spanfall.Store.Run

set_option autoImplicit false

namespace Spanfall

open Lib.Runs

/-- `SpanBatch` of `src/ingest/convert.rs`; the source calls the flag `partial`. -/
structure SpanBatch where
  spans : List (TraceId × NewSpan)
  partial_batch : Bool
  malformed_span_count : ℕ
  deriving DecidableEq

namespace SpanBatch

/-- The inserts of a batch. -/
def inserts (batch : SpanBatch) (now_unix_nano : UInt64) : List Event :=
  batch.spans.map fun p => .insert p.1 p.2 now_unix_nano

/-- The spans of a batch that go to the trace `id`. -/
def spans_of (batch : SpanBatch) (id : TraceId) : List NewSpan :=
  (batch.spans.filter fun p => decide (p.1 = id)).map Prod.snd

/-- The events of a batch. -/
def events (batch : SpanBatch) (now_unix_nano : UInt64) (order : TraceOrder) : List Event :=
  batch.inserts now_unix_nano ++ [.malformed batch.malformed_span_count, .sweep order]

/-- A batch of one span. -/
def of_span (trace_id : TraceId) (span : NewSpan) : SpanBatch where
  spans := [(trace_id, span)]
  partial_batch := false
  malformed_span_count := 0

end SpanBatch

namespace Store

/-- The `for` over the spans of a batch. -/
def insert_spans (self : Store) (spans : List (TraceId × NewSpan)) (now_unix_nano : UInt64) :
    Option Store :=
  spans.foldlM (fun self p => (self.insert_span_no_evict p.1 p.2 now_unix_nano).map Prod.fst) self

/-- The body of `run`, between receiving a batch and bumping the sequence. -/
def apply_batch (self : Store) (batch : SpanBatch) (now_unix_nano : UInt64) (order : TraceOrder) :
    Option Store := do
  let malformed := batch.malformed_span_count
  let self ← self.insert_spans batch.spans now_unix_nano
  let self := { self with counters :=
    { self.counters with malformed_span := self.counters.malformed_span + malformed } }
  self.evict_over_budget order

theorem insert_spans_eq_exec (spans : List (TraceId × NewSpan)) (now : UInt64) (s : Store) :
    s.insert_spans spans now
      = exec step (spans.map fun p => .insert p.1 p.2 now) s := by
  induction spans generalizing s with
  | nil => rfl
  | cons p spans ih =>
    rw [insert_spans, List.foldlM_cons, List.map_cons, exec_cons, step]
    exact congrArg _ (funext ih)

/-- **A batch is a run.** -/
theorem apply_batch_eq_exec (s : Store) (batch : SpanBatch) (now : UInt64) (order : TraceOrder) :
    s.apply_batch batch now order = exec step (batch.events now order) s := by
  rw [apply_batch, SpanBatch.events, exec_append, insert_spans_eq_exec, SpanBatch.inserts]
  cases exec step (batch.spans.map fun p => .insert p.1 p.2 now) s with
  | none => rfl
  | some s₁ =>
    rw [Option.bind_some, exec_cons, step, Option.bind_some, exec_cons, step]
    simp only [Option.bind_eq_bind, Option.bind_some]
    cases evict_over_budget _ order <;> rfl

/-- What the events of a batch send. -/
theorem sent_batch (batch : SpanBatch) (now : UInt64) (order : TraceOrder) :
    sent (batch.events now order) = batch.spans := by
  rw [sent, SpanBatch.events, List.flatMap_append, SpanBatch.inserts, List.flatMap_map]
  simp [Event.sent]

/-- A run with a batch behind it. -/
theorem exec_batch {es : List Event} {s₀ s s' : Store} {batch : SpanBatch} {now : UInt64}
    {order : TraceOrder} (h : exec step es s₀ = some s) (hs : s.apply_batch batch now order = some s') :
    exec step (es ++ batch.events now order) s₀ = some s' := by
  rw [apply_batch_eq_exec] at hs
  exact exec_trans h hs

/-- The state between the inserts and the sweep. -/
theorem apply_batch_cases {s s' : Store} {batch : SpanBatch} {now : UInt64} {order : TraceOrder}
    (h : s.apply_batch batch now order = some s') :
    ∃ s₁, exec step (batch.inserts now) s = some s₁
      ∧ Sweep order { s₁ with counters :=
          { s₁.counters with
            malformed_span := s₁.counters.malformed_span + batch.malformed_span_count } } s' := by
  rw [apply_batch, insert_spans_eq_exec, Option.bind_eq_bind, Option.bind_eq_some_iff] at h
  obtain ⟨s₁, h₁, hs⟩ := h
  exact ⟨s₁, h₁, sweep_of_evict hs⟩

/-! ## The inserts of a batch -/

/-- One insert, seen from the traces. -/
theorem step_insert {s s' : Store} {trace_id : TraceId} {span : NewSpan} {now : UInt64}
    (h : s.step (.insert trace_id span now) = some s') :
    ∃ t', (∀ id, s'.trace id = if id = trace_id then some t' else s.trace id)
      ∧ t'.last_activity_unix_nano = now
      ∧ ∀ t, s.trace trace_id = some t →
          t'.generation = t.generation ∧ t.span_ids <+: t'.span_ids := by
  obtain ⟨⟨s₁, out⟩, hins, rfl⟩ := Option.map_eq_some_iff.mp h
  obtain ⟨t', o, hins, htraces, _⟩ := insert_cases hins
  obtain ⟨_, hgen, hlast, hids, _⟩ := Trace.insert_frame hins
  refine ⟨t', trace_insert htraces, hlast, fun t ht => ?_⟩
  rw [entry, show s.traces.lookup trace_id = some t from ht] at hgen hids
  exact ⟨hgen, hids⟩

section Inserts

variable {spans : List (TraceId × NewSpan)} {now : UInt64} {s s' : Store}

/-- Traces that receive nothing are as before; the others are resident, stamped
with the batch's clock reading, and no span of them has moved. -/
theorem inserts_trace (h : exec step (spans.map fun p => .insert p.1 p.2 now) s = some s')
    (id : TraceId) :
    ((∀ p ∈ spans, p.1 ≠ id) → s'.trace id = s.trace id)
      ∧ ((∃ p ∈ spans, p.1 = id) →
          ∃ t', s'.trace id = some t' ∧ t'.last_activity_unix_nano = now)
      ∧ ∀ t, s.trace id = some t → ∃ t', s'.trace id = some t'
          ∧ t'.generation = t.generation ∧ t.span_ids <+: t'.span_ids := by
  induction spans generalizing s with
  | nil =>
    obtain rfl := Option.some.inj h
    exact ⟨fun _ => rfl, fun ⟨p, hp, _⟩ => absurd hp List.not_mem_nil,
      fun t ht => ⟨t, ht, rfl, List.prefix_refl _⟩⟩
  | cons p spans ih =>
    rw [List.map_cons, exec_cons, Option.bind_eq_some_iff] at h
    obtain ⟨s₁, h₁, h⟩ := h
    obtain ⟨t₁, htrace, hlast, hgrown⟩ := step_insert h₁
    obtain ⟨hother, hsent, hkept⟩ := ih h
    refine ⟨fun hne => ?_, fun hex => ?_, fun t ht => ?_⟩
    · rw [hother fun q hq => hne q (List.mem_cons_of_mem _ hq), htrace,
        if_neg (hne p List.mem_cons_self).symm]
    · -- stamped by the first span or by a later one; the clock reading is the same
      by_cases hin : ∃ q ∈ spans, q.1 = id
      · exact hsent hin
      · obtain ⟨q, hq, rfl⟩ := hex
        obtain rfl | hq := List.mem_cons.mp hq
        · rw [hother fun r hr he => hin ⟨r, hr, he⟩, htrace, if_pos rfl]
          exact ⟨t₁, rfl, hlast⟩
        · exact absurd ⟨q, hq, rfl⟩ hin
    · by_cases hp : id = p.1
      · subst hp
        obtain ⟨hgen, hids⟩ := hgrown t ht
        obtain ⟨t', ht', hgen', hids'⟩ := hkept t₁ (by rw [htrace, if_pos rfl])
        exact ⟨t', ht', hgen'.trans hgen, hids.trans hids'⟩
      · exact hkept t (by rw [htrace, if_neg hp, ht])

/-- Inserting evicts nothing and finds no span malformed. -/
theorem inserts_counters
    (h : exec step (spans.map fun p => .insert p.1 p.2 now) s = some s') :
    s'.counters.evicted_traces = s.counters.evicted_traces
      ∧ s'.counters.malformed_span = s.counters.malformed_span := by
  induction spans generalizing s with
  | nil =>
    obtain rfl := Option.some.inj h
    exact ⟨rfl, rfl⟩
  | cons p spans ih =>
    rw [List.map_cons, exec_cons, Option.bind_eq_some_iff] at h
    obtain ⟨s₁, h₁, h⟩ := h
    obtain ⟨⟨u, out⟩, hins, rfl⟩ := Option.map_eq_some_iff.mp h₁
    obtain ⟨_, _, _, _, _, _, _, hcounters, _⟩ := insert_cases hins
    obtain ⟨hevicted, hmalformed⟩ := ih h
    rw [hevicted, hmalformed, hcounters]
    exact ⟨rfl, rfl⟩

/-- The histories grow by what the batch sends. -/
theorem ghost_inserts (h : exec step (spans.map fun p => .insert p.1 p.2 now) s = some s')
    (g : TraceId → List NewSpan) (id : TraceId) :
    ghost step arrive (spans.map fun p => .insert p.1 p.2 now) s g id
      = g id ++ (spans.filter fun p => decide (p.1 = id)).map Prod.snd := by
  induction spans generalizing s g with
  | nil => exact (List.append_nil _).symm
  | cons p spans ih =>
    rw [List.map_cons, exec_cons, Option.bind_eq_some_iff] at h
    obtain ⟨s₁, h₁, h⟩ := h
    rw [List.map_cons, ghost, h₁]
    dsimp only
    rw [ih h, arrive, List.filter_cons]
    dsimp only
    by_cases hp : p.1 = id
    · rw [if_pos hp.symm, if_pos (by simpa using hp), List.map_cons, List.append_assoc]
      rfl
    · rw [if_neg (Ne.symm hp), if_neg (by simpa using hp)]

end Inserts

/-- A batch counts its malformed spans once. -/
theorem apply_batch_malformed {s s' : Store} {batch : SpanBatch} {now : UInt64}
    {order : TraceOrder} (h : s.apply_batch batch now order = some s') :
    s'.counters.malformed_span = s.counters.malformed_span + batch.malformed_span_count := by
  obtain ⟨s₁, h₁, hsweep⟩ := apply_batch_cases h
  rw [hsweep.swept.counters]
  exact congrArg (· + batch.malformed_span_count) (inserts_counters h₁).2

/-- The history of a trace after a batch. -/
theorem arrivals_batch {es : List Event} {s₀ s s' : Store} {batch : SpanBatch} {now : UInt64}
    {order : TraceOrder} (hs : exec step es s₀ = some s)
    (h : s.apply_batch batch now order = some s') {id : TraceId} (hin : (s'.trace id).isSome) :
    arrivals (es ++ batch.events now order) s₀ id
      = arrivals es s₀ id ++ batch.spans_of id := by
  -- the run of the batch, cut into inserts, malformed count and sweep
  obtain ⟨s₁, h₁, _⟩ := apply_batch_cases h
  rw [apply_batch_eq_exec, SpanBatch.events, exec_append, h₁, Option.bind_some, exec_cons] at h
  obtain ⟨s₂, h₂, h₃⟩ := Option.bind_eq_some_iff.mp h
  rw [exec_cons, Option.bind_eq_some_iff] at h₃
  obtain ⟨s₃, h₃, hend⟩ := h₃
  obtain rfl := Option.some.inj hend
  rw [arrivals, ghost_append hs, SpanBatch.events, ghost_append h₁, ghost, h₂]
  dsimp only
  rw [ghost, h₃]
  dsimp only
  -- the sweep keeps the history of a trace it leaves
  simp only [ghost_nil, arrive, if_pos hin]
  exact ghost_inserts h₁ _ id

end Store

end Spanfall
