/-
`Accounting.lean` -- accepted batches are applied exactly once.

A batch is in one place at a time: in a call that waits to send it, in the
channel, with the writer, or applied. The arrivals are counted by the call after
its send and the malformed spans by the writer after its receive, so while the
system runs the counts lag behind each other. [`Accounts`] says by how much, every
action keeps it, and when nothing is under way the lags are gone
([`accounts_of_quiet`]).
-/
import Mathlib.Data.Multiset.Basic
import Mathlib.Algebra.Order.Group.Multiset
import Spanfall.Ingest.Accept

set_option autoImplicit false

namespace Spanfall

open Lib.Runs Lib.Vec

namespace AcceptCall

variable (cfg : IngestConfig)

/-- The batch a request converts to. -/
def batch (call : AcceptCall) : Option SpanBatch :=
  match Spanfall.convert cfg.panic_injection call.request with
  | some (.ok batch) => some batch
  | some (.error _) => none
  | none => none

/-- The batch of a call that returned `Ok`. -/
def accepted (call : AcceptCall) : Option SpanBatch :=
  match call.state with
  | .returned (.ok ()) => call.batch cfg
  | _ => none

/-- The batch of a call whose send completed. -/
def sent (call : AcceptCall) : Option SpanBatch :=
  match call.state with
  | .recording _ => call.batch cfg
  | _ => call.accepted cfg

/-- The spans a call has counted on a transport. -/
def counted (transport : Transport) (call : AcceptCall) : ℕ :=
  match call.accepted cfg with
  | some batch => if call.transport = transport then batch.spans.length else 0
  | none => 0

/-- What a call holds is what its request converts to. -/
def Faithful (call : AcceptCall) : Prop :=
  match call.state with
  | .sending batch span_count => call.batch cfg = some batch ∧ span_count = batch.spans.length
  | .recording span_count => ∃ batch, call.batch cfg = some batch ∧ span_count = batch.spans.length
  | _ => True

variable {cfg}

/-- Only what was sent is accepted. -/
theorem sent_of_accepted {call : AcceptCall} {batch : SpanBatch}
    (h : call.accepted cfg = some batch) : call.sent cfg = some batch := by
  cases hs : call.state <;> simp only [accepted, sent, hs] at h ⊢ <;> first | exact h | cases h

theorem counted_of_unsent {call : AcceptCall} {transport : Transport} (h : call.sent cfg = none) :
    call.counted cfg transport = 0 := by
  unfold counted
  cases ha : call.accepted cfg with
  | none => rfl
  | some batch =>
    rw [sent_of_accepted ha] at h
    cases h

end AcceptCall

/-- The batch the writer holds. -/
def WriterState.held : WriterState → List SpanBatch
  | received batch => [batch]
  | _ => []

/-- The bumps the writer owes. -/
def WriterState.owed : WriterState → ℕ
  | applied => 1
  | _ => 0

namespace Ingest

/-- The batches applied so far, after one more action. -/
def log_applied (log : List SpanBatch) (s : Ingest) (_ : IngestAction) (s' : Ingest) :
    List SpanBatch :=
  match s.writer, s'.writer with
  | .received batch, .applied => log ++ [batch]
  | _, _ => log

/-- The batches the writer applied along a run, in order. -/
def applied (cfg : IngestConfig) (actions : List IngestAction) (s : Ingest) : List SpanBatch :=
  ghost (step cfg) log_applied actions s []

/-- No call is under way, and the writer has drained the channel. -/
structure Quiet (s : Ingest) : Prop where
  calls : ∀ call ∈ s.calls, call.state.finished = true
  queue : s.queue = []
  writer : s.writer = .waiting ∨ s.writer = .ended

/-- The books while the system runs: `log` has been applied, from a store that
had counted `malformed` before. -/
structure Accounts (cfg : IngestConfig) (malformed : ℕ) (log : List SpanBatch) (s : Ingest) :
    Prop where
  faithful : ∀ call ∈ s.calls, call.Faithful cfg
  batches : s.writer ≠ .panicked → (Multiset.ofList (log ++ s.writer.held ++ s.queue))
    = (s.calls.map fun call => Multiset.ofList (call.sent cfg).toList).sum
  arrivals : ∀ transport, s.receiver.arrivals.of transport
    = (s.calls.map (AcceptCall.counted cfg transport)).sum
  malformed : s.store.counters.malformed_span
    = malformed + (log.map (·.malformed_span_count)).sum
  seq : s.seq + s.writer.owed = log.length

theorem Accounts.start (cfg : IngestConfig) (store : Store) :
    Accounts cfg store.counters.malformed_span [] (Ingest.start store) where
  faithful _ h := absurd h List.not_mem_nil
  batches _ := rfl
  arrivals transport := by cases transport <;> rfl
  malformed := rfl
  seq := rfl

/-! ## One action -/

section Step

variable {cfg : IngestConfig} {malformed : ℕ} {log : List SpanBatch} {s s' : Ingest}

/-- **A call moves.** What the call newly sent is in the channel, and what it
newly counted is on its counter. -/
theorem Accounts.move (h : Accounts cfg malformed log s) {i : ℕ} {call : AcceptCall}
    (hcall : s.calls[i]? = some call) {state : AcceptState}
    (hcalls : s'.calls = s.calls.set i { call with state }) (hwriter : s'.writer = s.writer)
    (hstore : s'.store = s.store) (hseq : s'.seq = s.seq)
    (hfaithful : AcceptCall.Faithful cfg { call with state })
    (hqueue : Multiset.ofList s'.queue + Multiset.ofList (call.sent cfg).toList
      = Multiset.ofList s.queue + Multiset.ofList (AcceptCall.sent cfg { call with state }).toList)
    (harrivals : ∀ transport,
      s'.receiver.arrivals.of transport + call.counted cfg transport
        = s.receiver.arrivals.of transport
          + AcceptCall.counted cfg transport { call with state }) :
    Accounts cfg malformed log s' where
  faithful c hc := by
    rw [hcalls] at hc
    obtain hc | rfl := List.mem_or_eq_of_mem_set hc
    · exact h.faithful c hc
    · exact hfaithful
  batches hopen := by
    rw [hwriter] at hopen ⊢
    have hbefore := h.batches hopen
    have hset := sum_map_set (fun call => Multiset.ofList (call.sent cfg).toList) hcall
      { call with state }
    rw [hcalls]
    -- what the call had sent before is on both sides
    refine add_right_cancel (b := Multiset.ofList (call.sent cfg).toList) ?_
    rw [hset, ← hbefore]
    simp only [← Multiset.coe_add, add_assoc, hqueue]
  arrivals transport := by
    have hset := sum_map_set (AcceptCall.counted cfg transport) hcall { call with state }
    have hbefore := h.arrivals transport
    have hafter := harrivals transport
    rw [hcalls]
    omega
  malformed := by rw [hstore]; exact h.malformed
  seq := by rw [hseq, hwriter]; exact h.seq

/-- A call that has neither sent nor counted anything, before and after. -/
theorem Accounts.move_unsent (h : Accounts cfg malformed log s) {i : ℕ} {call : AcceptCall}
    (hcall : s.calls[i]? = some call) {state : AcceptState} {receiver : ReceiverState}
    (hreceiver : receiver.arrivals = s.receiver.arrivals)
    (hfaithful : AcceptCall.Faithful cfg { call with state })
    (hbefore : call.sent cfg = none) (hafter : AcceptCall.sent cfg { call with state } = none) :
    Accounts cfg malformed log { s.move i call state with receiver } := by
  refine h.move hcall rfl rfl rfl rfl hfaithful ?_ fun transport => ?_
  · rw [hbefore, hafter]
    rfl
  · rw [AcceptCall.counted_of_unsent hbefore, AcceptCall.counted_of_unsent hafter]
    exact congrArg (·.of transport + 0) hreceiver

/-- A call that is still sending has sent nothing. -/
theorem AcceptCall.sent_of_sending {call : AcceptCall} {batch : SpanBatch} {span_count : ℕ}
    (h : call.state = .sending batch span_count) : call.sent cfg = none := by
  simp only [AcceptCall.sent, AcceptCall.accepted, h]

/-- The books, read while the writer is alive. -/
theorem Accounts.at_writer (h : Accounts cfg malformed log s) {writer : WriterState}
    (hwriter : s.writer = writer) (hopen : writer ≠ .panicked) :
    Multiset.ofList (log ++ writer.held ++ s.queue)
        = (s.calls.map fun call => Multiset.ofList (call.sent cfg).toList).sum
      ∧ s.seq + writer.owed = log.length := by
  subst hwriter
  exact ⟨h.batches hopen, h.seq⟩

/-- After `convert` a call holds what its request converts to, and has sent
nothing. -/
theorem converted_faithful (cfg : IngestConfig) (call : AcceptCall) :
    AcceptCall.Faithful cfg { call with state := call.converted cfg }
      ∧ AcceptCall.sent cfg { call with state := call.converted cfg } = none := by
  unfold AcceptCall.Faithful AcceptCall.sent AcceptCall.accepted AcceptCall.batch
    AcceptCall.converted
  dsimp only
  cases hc : convert cfg.panic_injection call.request with
  | none => exact ⟨trivial, rfl⟩
  | some r =>
    cases r with
    | error reason => exact ⟨trivial, rfl⟩
    | ok batch => exact ⟨⟨rfl, rfl⟩, rfl⟩

/-- Nothing is logged while the writer holds no batch. -/
theorem log_applied_of_empty {action : IngestAction} (h : s.writer.held = []) :
    log_applied log s action s' = log := by
  unfold log_applied
  cases hw : s.writer with
  | received batch =>
    rw [hw] at h
    cases h
  | _ => rfl

/-- **The step lemma.** -/
theorem Accounts.step (h : Accounts cfg malformed log s) {action : IngestAction}
    (hs : s.step cfg action = some s') :
    Accounts cfg malformed (log_applied log s action s') s' := by
  -- only `apply` logs
  have unlogged : s'.writer = s.writer → log_applied log s action s' = log := fun hw => by
    unfold log_applied
    rw [hw]
    cases s.writer <;> rfl
  cases acts_of_step hs with
  | @accept request transport hsenders =>
    rw [unlogged rfl]
    exact
      { faithful := fun call hc => by
          obtain hc | hc := List.mem_append.mp hc
          · exact h.faithful call hc
          · rw [List.mem_singleton.mp hc]
            trivial
        batches := fun hopen => by
          rw [List.map_append, List.sum_append, ← h.batches hopen]
          simp [AcceptCall.sent, AcceptCall.accepted]
        arrivals := fun transport => by
          rw [List.map_append, List.sum_append, ← h.arrivals transport]
          rfl
        malformed := h.malformed
        seq := h.seq }
  | convert hcall hstate =>
    rw [unlogged rfl]
    obtain ⟨hfaithful, hafter⟩ := converted_faithful cfg _
    exact h.move_unsent hcall rfl hfaithful
      (by simp only [AcceptCall.sent, AcceptCall.accepted, hstate]) hafter
  | record_reject hcall hstate =>
    rw [unlogged rfl]
    exact h.move_unsent hcall rfl trivial
      (by simp only [AcceptCall.sent, AcceptCall.accepted, hstate]) rfl
  | @send i call batch span_count hcall hstate hopen hroom =>
    rw [unlogged rfl]
    have hf := h.faithful call (List.mem_of_getElem? hcall)
    rw [AcceptCall.Faithful, hstate] at hf
    obtain ⟨hbatch, hcount⟩ := hf
    have hbefore : call.sent cfg = none := AcceptCall.sent_of_sending hstate
    have hafter : AcceptCall.sent cfg { call with state := .recording span_count } = some batch :=
      hbatch
    refine h.move hcall rfl rfl rfl rfl ⟨batch, hbatch, hcount⟩ ?_ fun transport => ?_
    · rw [hbefore, hafter, Option.toList_none, Option.toList_some, ← Multiset.coe_add]
      exact add_zero _
    · rw [AcceptCall.counted_of_unsent hbefore]
      rfl
  -- three ways to give up while sending: the batch is not in the channel
  | send_closed hcall hstate hclosed =>
    rw [unlogged rfl]
    exact h.move_unsent hcall rfl trivial (AcceptCall.sent_of_sending hstate) rfl
  | timeout hcall hstate =>
    rw [unlogged rfl]
    exact h.move_unsent hcall rfl trivial (AcceptCall.sent_of_sending hstate) rfl
  | drop hcall hstate =>
    rw [unlogged rfl]
    exact h.move_unsent hcall rfl trivial (AcceptCall.sent_of_sending hstate) rfl
  | @record_arrival i call span_count hcall hstate =>
    rw [unlogged rfl]
    have hf := h.faithful call (List.mem_of_getElem? hcall)
    rw [AcceptCall.Faithful, hstate] at hf
    obtain ⟨batch, hbatch, hcount⟩ := hf
    have hbefore : call.sent cfg = some batch := by
      simp only [AcceptCall.sent, hstate]
      exact hbatch
    have hafter : AcceptCall.sent cfg { call with state := .returned (.ok ()) } = some batch :=
      hbatch
    refine h.move hcall rfl rfl rfl rfl trivial ?_ fun transport => ?_
    · rw [hbefore, hafter]
      rfl
    · have hnone : call.accepted cfg = none := by simp only [AcceptCall.accepted, hstate]
      have hsome : AcceptCall.accepted cfg { call with state := .returned (.ok ()) }
          = some batch := hbatch
      simp only [AcceptCall.counted, hnone, hsome, ArrivalCounts.of_record, ← hcount, add_zero]
  | recv hwriter hqueue =>
    obtain ⟨hbefore, hseq⟩ := h.at_writer hwriter nofun
    rw [log_applied_of_empty (by rw [hwriter]; rfl)]
    refine { h with batches := fun _ => ?_, seq := hseq }
    -- the batch goes from the channel into the writer's hand
    rw [← hbefore, hqueue]
    simp [WriterState.held]
  | @apply now order batch store hwriter hstore =>
    have hlog : log_applied log s (.apply now order) { s with store, writer := .applied }
        = log ++ [batch] := by unfold log_applied; rw [hwriter]
    obtain ⟨hbefore, hseq⟩ := h.at_writer hwriter nofun
    rw [hlog]
    refine { h with batches := fun _ => ?_, malformed := ?_, seq := ?_ }
    · -- and from there into the log
      rw [← hbefore]
      simp [WriterState.held]
    · rw [Store.apply_batch_malformed hstore, h.malformed, List.map_append, List.sum_append,
        Nat.add_assoc]
      rfl
    · rw [List.length_append, ← hseq]
      rfl
  | @panic now order batch hwriter hstore =>
    have hlog : log_applied log s (.apply now order) { s with writer := .panicked, queue := [] }
        = log := by unfold log_applied; rw [hwriter]
    rw [hlog]
    refine { h with batches := fun hopen => absurd rfl hopen, seq := ?_ }
    have := h.seq
    rw [hwriter] at this
    exact this
  | bump hwriter =>
    obtain ⟨hbefore, hseq⟩ := h.at_writer hwriter nofun
    rw [log_applied_of_empty (by rw [hwriter]; rfl)]
    exact { h with batches := fun _ => hbefore, seq := hseq }
  | stop hwriter hqueue hcalls =>
    obtain ⟨hbefore, hseq⟩ := h.at_writer hwriter nofun
    rw [log_applied_of_empty (by rw [hwriter]; rfl)]
    exact { h with batches := fun _ => hbefore, seq := hseq }

end Step

/-- **The run lemma.** -/
theorem accounts_of_run {cfg : IngestConfig} {store : Store} {actions : List IngestAction}
    {s : Ingest} (h : exec (step cfg) actions (start store) = some s) :
    Accounts cfg store.counters.malformed_span (applied cfg actions (start store)) s :=
  exec_induction (P := fun actions s => Accounts cfg store.counters.malformed_span
      (applied cfg actions (start store)) s) (Accounts.start cfg store)
    (fun actions s action s' hrun ih hs => by
      rw [applied, ghost_snoc hrun hs]
      exact ih.step hs) h

/-! ## When nothing is under way -/

theorem sum_toList {α β : Type} (f : α → Option β) (v : List α) :
    (v.map fun x => Multiset.ofList (f x).toList).sum = Multiset.ofList (v.filterMap f) := by
  induction v with
  | nil => rfl
  | cons x v ih =>
    rw [List.map_cons, List.sum_cons, ih, List.filterMap_cons]
    cases f x <;> rfl

/-- The batches accepted on one transport. -/
def accepted_on (cfg : IngestConfig) (s : Ingest) (transport : Transport) : List SpanBatch :=
  (s.calls.filter fun call => decide (call.transport = transport)).filterMap
    (AcceptCall.accepted cfg)

theorem sum_counted (cfg : IngestConfig) (transport : Transport) (calls : List AcceptCall) :
    (calls.map (AcceptCall.counted cfg transport)).sum
      = (((calls.filter fun call => decide (call.transport = transport)).filterMap
          (AcceptCall.accepted cfg)).map (·.spans.length)).sum := by
  induction calls with
  | nil => rfl
  | cons call calls ih =>
    rw [List.map_cons, List.sum_cons, ih, AcceptCall.counted, List.filter_cons]
    by_cases ht : call.transport = transport
    · rw [if_pos (by simpa using ht), List.filterMap_cons]
      cases call.accepted cfg with
      | none => exact Nat.zero_add _
      | some batch => simp [ht]
    · rw [if_neg (by simpa using ht)]
      cases call.accepted cfg <;> simp [ht]

/-- Each accepted span is counted on one of the three. -/
theorem sum_counted_all (cfg : IngestConfig) (calls : List AcceptCall) :
    (calls.map (AcceptCall.counted cfg .grpc_v4317)).sum
        + (calls.map (AcceptCall.counted cfg .http_protobuf_v4318)).sum
        + (calls.map (AcceptCall.counted cfg .http_json_v4318)).sum
      = ((calls.filterMap (AcceptCall.accepted cfg)).map (·.spans.length)).sum := by
  induction calls with
  | nil => rfl
  | cons call calls ih =>
    simp only [List.map_cons, List.sum_cons, List.filterMap_cons, AcceptCall.counted] at ih ⊢
    cases call.accepted cfg with
    | none =>
      dsimp only
      omega
    | some batch =>
      dsimp only
      rw [List.map_cons, List.sum_cons]
      cases call.transport <;> simp only [reduceCtorEq, if_true, if_false] <;> omega

/-- **When all is quiet**, what has been applied is what has been accepted, and every
count agrees with it. -/
theorem accounts_of_quiet {cfg : IngestConfig} {store : Store} {actions : List IngestAction}
    {s : Ingest} (h : exec (step cfg) actions (start store) = some s) (hquiet : s.Quiet) :
    (applied cfg actions (start store)).Perm (s.calls.filterMap (AcceptCall.accepted cfg))
      ∧ s.receiver.arrivals.grpc_v4317 + s.receiver.arrivals.http_protobuf_v4318
          + s.receiver.arrivals.http_json_v4318
        = ((applied cfg actions (start store)).map (·.spans.length)).sum
      ∧ (∀ transport, s.receiver.arrivals.of transport
        = ((s.accepted_on cfg transport).map (·.spans.length)).sum)
      ∧ s.store.counters.malformed_span = store.counters.malformed_span
        + ((applied cfg actions (start store)).map (·.malformed_span_count)).sum
      ∧ s.seq = (applied cfg actions (start store)).length := by
  have hbooks := accounts_of_run h
  set log := applied cfg actions (start store)
  have hheld : s.writer.held = [] ∧ s.writer.owed = 0 ∧ s.writer ≠ .panicked := by
    obtain hw | hw := hquiet.writer <;> rw [hw] <;> exact ⟨rfl, rfl, nofun⟩
  obtain ⟨hheld, howed, hopen⟩ := hheld
  -- a finished call has sent what it was accepted with
  have hsent : ∀ call ∈ s.calls, call.sent cfg = call.accepted cfg := fun call hc => by
    have hfinished := hquiet.calls call hc
    unfold AcceptCall.sent
    cases hstate : call.state with
    | recording n =>
      rw [hstate] at hfinished
      cases hfinished
    | _ => rfl
  have hperm : log.Perm (s.calls.filterMap (AcceptCall.accepted cfg)) := by
    have hbatches := hbooks.batches hopen
    rw [hheld, hquiet.queue, List.append_nil, List.append_nil,
      List.map_congr_left fun call hc => congrArg (fun o => Multiset.ofList o.toList)
        (hsent call hc), sum_toList] at hbatches
    exact Multiset.coe_eq_coe.mp hbatches
  have harrivals := hbooks.arrivals
  refine ⟨hperm, ?_, fun transport => ?_, hbooks.malformed, ?_⟩
  · rw [(hperm.map _).sum_eq, ← sum_counted_all, ← harrivals, ← harrivals, ← harrivals]
    rfl
  · rw [harrivals, sum_counted]
    rfl
  · have hseq := hbooks.seq
    rwa [howed, Nat.add_zero] at hseq

/-- A span on the wire, its trace id `n` bytes long. -/
def wire_span (n : ℕ) : PbSpan where
  trace_id := List.replicate n 1
  span_id := List.replicate 8 2
  parent_span_id := []
  name := "op"
  start_time_unix_nano := 1
  end_time_unix_nano := 2
  attributes := []
  status := none

def wire_request (spans : List PbSpan) : ExportTraceServiceRequest :=
  { resource_spans := [{ resource := none, scope_spans := [{ spans }] }] }

/-- A channel of one place. -/
def small_channel : IngestConfig where
  capacity := 1
  panic_injection := false
  printable c := decide (' ' ≤ c ∧ c ≤ '~')

end Ingest

end Spanfall
