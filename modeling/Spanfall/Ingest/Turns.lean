/-
`Turns.lean` -- what the writer has done to the store.

A turn of the writer is a batch with the clock reading and the walking order it
was applied with. The turns are the batches applied, and the store is what they
make of the one at the start ([`store_of_turns`]), so with the accounts of the calls
each accepted batch is in the store once ([`applied_exactly_once`]). A turn that fails is one that
the batches sent so far cannot have led to before they carry more attributes than
an offset can count ([`writer_alive`]).
-/
import Spanfall.Api.Events
import Spanfall.Ingest.Accounting
import Spanfall.Store.Refine

set_option autoImplicit false

namespace Spanfall

open Lib.Runs Lib.Vec

/-- The attributes on the spans of a batch. -/
def SpanBatch.attributes (batch : SpanBatch) : ℕ :=
  (batch.spans.map fun p => p.2.attributes.length).sum

/-- What was sent is what the request converts to. -/
theorem AcceptCall.batch_of_sent {cfg : IngestConfig} {call : AcceptCall} {batch : SpanBatch}
    (h : call.sent cfg = some batch) : call.batch cfg = some batch := by
  rw [sent] at h
  split at h
  · exact h
  · rw [accepted] at h
    split at h
    · exact h
    · cases h

/-- The attributes a call brings. -/
def AcceptCall.attributes (cfg : IngestConfig) (call : AcceptCall) : ℕ :=
  ((call.batch cfg).map SpanBatch.attributes).getD 0

/-- Not a new call. -/
def IngestAction.inside : IngestAction → Bool
  | accept _ _ => false
  | _ => true

namespace Ingest

/-- The turns so far, after one more action. -/
def log_turn (turns : List AppliedBatch) (s : Ingest) (action : IngestAction) (s' : Ingest) :
    List AppliedBatch :=
  match action, s.writer, s'.writer with
  | .apply now_unix_nano order, .received batch, .applied =>
    turns ++ [{ batch, now_unix_nano, order }]
  | _, _, _ => turns

/-- The turns of the writer along a run, in order. -/
def turns (cfg : IngestConfig) (actions : List IngestAction) (s : Ingest) : List AppliedBatch :=
  ghost (step cfg) log_turn actions s []

section Step

variable {cfg : IngestConfig} {s s' : Ingest}

/-- **An action is a turn of the writer, or it leaves the store alone.** -/
theorem turn_cases {action : IngestAction} (hs : s.step cfg action = some s') :
    (∃ a : AppliedBatch, a.apply s.store = some s'.store ∧ s.writer = .received a.batch
        ∧ s'.calls = s.calls
        ∧ (∀ log, log_applied log s action s' = log ++ [a.batch])
        ∧ ∀ turns, log_turn turns s action s' = turns ++ [a])
      ∨ (s'.store = s.store ∧ (∀ log, log_applied log s action s' = log)
        ∧ ∀ turns, log_turn turns s action s' = turns) := by
  -- only `apply` logs
  have unlogged : s'.writer = s.writer → ∀ log, log_applied log s action s' = log := by
    intro hw log
    unfold log_applied
    rw [hw]
    cases s.writer <;> rfl
  cases acts_of_step hs with
  | @apply now order batch store hwriter hstore =>
    refine Or.inl ⟨{ batch, now_unix_nano := now, order }, hstore, hwriter, rfl, fun log => ?_,
      fun turns => ?_⟩
    · unfold log_applied
      rw [hwriter]
    · unfold log_turn
      rw [hwriter]
  | @panic now order batch hwriter hstore =>
    refine Or.inr ⟨rfl, fun log => ?_, fun turns => ?_⟩
    · unfold log_applied
      rw [hwriter]
    · unfold log_turn
      rw [hwriter]
  | recv hwriter | bump hwriter | stop hwriter =>
    refine Or.inr ⟨rfl, fun log => log_applied_of_empty ?_, fun turns => rfl⟩
    rw [hwriter]
    rfl
  | _ => exact Or.inr ⟨rfl, unlogged rfl, fun turns => rfl⟩

end Step

variable {cfg : IngestConfig} {store : Store} {actions : List IngestAction} {s : Ingest}

/-- The batches of the turns are those applied, and the store is what they make
of the one at the start. -/
theorem store_of_turns (h : exec (step cfg) actions (start store) = some s) :
    (turns cfg actions (start store)).map (·.batch) = applied cfg actions (start store)
      ∧ after_batches store (turns cfg actions (start store)) = some s.store := by
  refine exec_induction (P := fun actions s =>
    (turns cfg actions (start store)).map (·.batch) = applied cfg actions (start store)
      ∧ after_batches store (turns cfg actions (start store)) = some s.store) ⟨rfl, rfl⟩ ?_ h
  rintro actions s action s' hrun ⟨hmap, hafter⟩ hs
  rw [turns, applied, ghost_snoc hrun hs, ghost_snoc hrun hs]
  rw [turns] at hmap hafter
  rw [applied] at hmap
  obtain ⟨a, ha, _, _, hlog, hturn⟩ | ⟨hstore, hlog, hturn⟩ := turn_cases hs
  · rw [hlog, hturn, List.map_append, hmap]
    exact ⟨rfl, after_batches_snoc hafter ha⟩
  · rw [hlog, hturn, hstore]
    exact ⟨hmap, hafter⟩

/-- **Accepted batches are applied exactly once, refused ones never**, every count
agrees with them, and the store is what they make of the one at the start. -/
theorem applied_exactly_once (h : exec (step cfg) actions (start store) = some s)
    (hquiet : s.Quiet) :
    (applied cfg actions (start store)).Perm (s.calls.filterMap (AcceptCall.accepted cfg))
      ∧ s.receiver.arrivals.grpc_v4317 + s.receiver.arrivals.http_protobuf_v4318
          + s.receiver.arrivals.http_json_v4318
        = ((applied cfg actions (start store)).map (·.spans.length)).sum
      ∧ (∀ transport, s.receiver.arrivals.of transport
        = ((s.accepted_on cfg transport).map (·.spans.length)).sum)
      ∧ s.store.counters.malformed_span = store.counters.malformed_span
        + ((applied cfg actions (start store)).map (·.malformed_span_count)).sum
      ∧ s.seq = (applied cfg actions (start store)).length
      ∧ ∃ turns : List AppliedBatch, turns.map (·.batch) = applied cfg actions (start store)
        ∧ after_batches store turns = some s.store := by
  obtain ⟨hperm, hsum, harrivals, hmalformed, hseq⟩ := accounts_of_quiet h hquiet
  exact ⟨hperm, hsum, harrivals, hmalformed, hseq, _, store_of_turns h⟩

/-- A channel of one place, three calls: the first is accepted with one of its
two spans, the second finds the channel full until its timeout, the third is
empty. The arrival is recorded after the writer has the batch. -/
def three_calls : List IngestAction :=
  [.accept (wire_request [wire_span 16, wire_span 15]) .grpc_v4317,
    .accept (wire_request [wire_span 16]) .http_json_v4318,
    .accept (wire_request []) .http_protobuf_v4318,
    .convert 0, .convert 1, .convert 2, .send 0, .timeout 1, .recv, .record_reject 2 5,
    .apply 7 TraceOrder.by_id, .record_arrival 0, .bump]

theorem three_calls_run :
    (exec (step small_channel) three_calls (start (Store.new 1000))).isSome := by
  decide +kernel

theorem three_calls_quiet : (Option.get _ three_calls_run).Quiet where
  calls := by decide +kernel
  queue := by decide +kernel
  writer := by decide +kernel

theorem applied_exactly_once_three :
    ∃ s, exec (step small_channel) three_calls (start (Store.new 1000)) = some s
      ∧ s.receiver.arrivals.of .grpc_v4317 = 1 ∧ s.store.counters.malformed_span = 1
      ∧ s.seq = 1 ∧ ∃ turns : List AppliedBatch, turns.length = 1
        ∧ after_batches (Store.new 1000) turns = some s.store := by
  have hrun := (Option.some_get three_calls_run).symm
  obtain ⟨_, _, harrivals, hmalformed, hseq, turns, hturns, hstore⟩ :=
    applied_exactly_once hrun three_calls_quiet
  have hone : (applied small_channel three_calls (start (Store.new 1000))).length = 1 := by
    decide +kernel
  refine ⟨_, hrun, (harrivals _).trans (by decide +kernel), hmalformed.trans (by decide +kernel),
    hseq.trans hone, turns, ?_, hstore⟩
  rw [← hone, ← hturns, List.length_map]

/-! ## When the writer can fail -/

theorem attrs_sent_batch (batch : SpanBatch) (now : UInt64) (order : TraceOrder) :
    Store.attrs_sent (batch.events now order) = batch.attributes := by
  rw [Store.attrs_sent, Store.keys_shown, SpanBatch.events, SpanBatch.inserts, List.flatMap_append,
    List.flatMap_map, List.length_append, List.length_flatMap, SpanBatch.attributes]
  simp [Event.keys]

/-- The events of the turns. -/
def turn_events (turns : List AppliedBatch) : List Event :=
  turns.flatMap fun a => a.batch.events a.now_unix_nano a.order

theorem turn_events_append (turns more : List AppliedBatch) :
    turn_events (turns ++ more) = turn_events turns ++ turn_events more := List.flatMap_append

/-- **Turns are a run of the store.** -/
theorem exec_turn_events {s₀ s₁ : Store} {turns : List AppliedBatch}
    (h : after_batches s₀ turns = some s₁) : exec Store.step (turn_events turns) s₀ = some s₁ := by
  refine exec_induction (P := fun turns s₁ => exec Store.step (turn_events turns) s₀ = some s₁)
    rfl ?_ h
  intro turns s₁ a s₂ _ ih ha
  rw [turn_events_append]
  have hlast : turn_events [a] = a.batch.events a.now_unix_nano a.order := List.append_nil _
  rw [hlast]
  exact Store.exec_batch ih ha

/-- They carry the attributes of the batches. -/
theorem attrs_sent_turns (turns : List AppliedBatch) :
    Store.attrs_sent (turn_events turns)
      = ((turns.map (·.batch)).map SpanBatch.attributes).sum := by
  induction turns with
  | nil => rfl
  | cons a turns ih =>
    have hfirst := attrs_sent_batch a.batch a.now_unix_nano a.order
    rw [Store.attrs_sent] at ih hfirst ⊢
    rw [turn_events, List.flatMap_cons, Store.keys_shown_append, List.length_append, hfirst]
    rw [turn_events] at ih
    rw [ih]
    rfl

/-- A batch applies while its attributes and those before it can be counted. -/
theorem turn_isSome {m : ℕ} {turns : List AppliedBatch} {s₁ : Store}
    (h : after_batches (Store.new m) turns = some s₁) (batch : SpanBatch)
    (hsmall : ((turns.map (·.batch)).map SpanBatch.attributes).sum + batch.attributes < 2 ^ 32)
    (now : UInt64) (order : TraceOrder) : (s₁.apply_batch batch now order).isSome := by
  have hes := exec_turn_events h
  have hall : Store.attrs_sent (turn_events turns ++ batch.events now order) < 2 ^ 32 := by
    have hsum := attrs_sent_turns turns
    have hbatch := attrs_sent_batch batch now order
    rw [Store.attrs_sent] at hsum hbatch ⊢
    rw [Store.keys_shown_append, List.length_append, hsum, hbatch]
    exact hsmall
  obtain ⟨s₂, h₂, _⟩ := Store.run_holds m _ (Store.AttrsBelow.of_sent hall)
  rw [exec_append, hes, Option.bind_some, ← Store.apply_batch_eq_exec] at h₂
  rw [h₂]
  rfl

/-- What has left the calls is no more than what they bring. -/
theorem attributes_left (hbooks : Accounts cfg store.counters.malformed_span
      (applied cfg actions (start store)) s) (hopen : s.writer ≠ .panicked) :
    ((applied cfg actions (start store) ++ s.writer.held ++ s.queue).map SpanBatch.attributes).sum
      ≤ (s.calls.map (AcceptCall.attributes cfg)).sum := by
  have hsum := congrArg (fun batches => (batches.map SpanBatch.attributes).sum)
    (hbooks.batches hopen)
  rw [Multiset.map_coe, Multiset.sum_coe] at hsum
  rw [hsum]
  clear hsum hbooks hopen
  induction s.calls with
  | nil => exact Nat.le_refl _
  | cons call calls ih =>
    rw [List.map_cons, List.sum_cons, Multiset.map_add, Multiset.sum_add, List.map_cons,
      List.sum_cons]
    refine Nat.add_le_add ?_ ih
    rw [Multiset.map_coe, Multiset.sum_coe]
    cases hsent : call.sent cfg with
    | none => exact Nat.zero_le _
    | some batch =>
      rw [AcceptCall.attributes, AcceptCall.batch_of_sent hsent]
      simp

/-- Only a new call brings attributes. -/
theorem attributes_same {s' : Ingest} {action : IngestAction} (hs : s.step cfg action = some s')
    (hinside : action.inside = true) :
    (s'.calls.map (AcceptCall.attributes cfg)).sum
      = (s.calls.map (AcceptCall.attributes cfg)).sum := by
  -- a call that moves brings what it brought
  have move : ∀ {i : ℕ} {call : AcceptCall} (state : AcceptState), s.calls[i]? = some call →
      ((s.calls.set i { call with state }).map (AcceptCall.attributes cfg)).sum
        = (s.calls.map (AcceptCall.attributes cfg)).sum := by
    intro i call state hcall
    have hset := sum_map_set (AcceptCall.attributes cfg) hcall { call with state }
    have hsame : AcceptCall.attributes cfg { call with state } = call.attributes cfg := rfl
    omega
  cases acts_of_step hs with
  | accept => cases hinside
  | convert hcall | record_reject hcall | send hcall | send_closed hcall | timeout hcall
  | drop hcall | record_arrival hcall => exact move _ hcall
  | _ => rfl

theorem attributes_mono {s' : Ingest} {action : IngestAction}
    (hs : s.step cfg action = some s') :
    (s.calls.map (AcceptCall.attributes cfg)).sum
      ≤ (s'.calls.map (AcceptCall.attributes cfg)).sum := by
  by_cases hinside : action.inside = true
  · exact Nat.le_of_eq (attributes_same hs hinside).symm
  · cases acts_of_step hs with
    | accept =>
      rw [List.map_append, List.sum_append]
      exact Nat.le_add_right _ _
    | _ => exact absurd rfl hinside

/-- **The writer does not fail** while the requests carry fewer attributes than
an offset can count. -/
theorem writer_alive {m : ℕ} (h : exec (step cfg) actions (start (Store.new m)) = some s)
    (hsmall : (s.calls.map (AcceptCall.attributes cfg)).sum < 2 ^ 32) : s.writer ≠ .panicked := by
  revert hsmall
  refine exec_induction (P := fun _ s => (s.calls.map (AcceptCall.attributes cfg)).sum < 2 ^ 32 →
    s.writer ≠ .panicked)
    (fun _ => show WriterState.waiting ≠ .panicked by simp) ?_ h
  intro actions s action s' hrun ih hs hsmall
  have hbefore := (attributes_mono hs).trans_lt hsmall
  have halive := ih hbefore
  cases acts_of_step hs with
  | @panic now order batch hwriter hstore =>
    obtain ⟨hmap, hafter⟩ := store_of_turns hrun
    have hleft := attributes_left (accounts_of_run hrun) halive
    rw [hwriter, List.map_append, List.sum_append, List.map_append, List.sum_append, ← hmap]
      at hleft
    have hturn := turn_isSome hafter batch
      (by simp only [WriterState.held, List.map_singleton, List.sum_singleton] at hleft; omega)
      now order
    rw [hstore] at hturn
    cases hturn
  | _ => first | exact halive | exact WriterState.noConfusion

/-- So what has been applied carries no more attributes than the calls bring. -/
theorem attributes_applied {m : ℕ} (h : exec (step cfg) actions (start (Store.new m)) = some s)
    (hsmall : (s.calls.map (AcceptCall.attributes cfg)).sum < 2 ^ 32) :
    ((turns cfg actions (start (Store.new m))).map fun a => a.batch.attributes).sum
      ≤ (s.calls.map (AcceptCall.attributes cfg)).sum := by
  have hleft := attributes_left (accounts_of_run h) (writer_alive h hsmall)
  rw [← (store_of_turns h).1, List.map_append, List.map_append, List.sum_append, List.sum_append,
    List.map_map] at hleft
  exact (Nat.le_add_right _ _).trans ((Nat.le_add_right _ _).trans hleft)

end Ingest

end Spanfall
