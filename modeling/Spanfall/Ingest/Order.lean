/-
`Order.lean` -- the order in which accepted batches are applied.

The writer keeps the order of the channel, and the channel that of the sends.
Beside the system runs the list of the calls whose sends completed, in their
order ([`send_order`]): what has been applied, what the writer holds and what is
in the channel are the batches of these calls, one behind the other
([`applied_in_send_order`]). A call that was there before another one was made
and had sent by then stands before it.
-/
import Spanfall.Ingest.Accounting

set_option autoImplicit false

namespace Spanfall

open Lib.Runs Lib.Vec

namespace Ingest

/-- The calls whose sends completed, after one more action. -/
def log_sent (order : List ℕ) (_ : Ingest) (action : IngestAction) (_ : Ingest) : List ℕ :=
  match action with
  | .send i => order ++ [i]
  | _ => order

/-- The calls whose sends completed along a run, in that order. -/
def send_order (cfg : IngestConfig) (actions : List IngestAction) (s : Ingest) : List ℕ :=
  ghost (step cfg) log_sent actions s []

/-- The batch that the call has put into the channel. -/
def sent_at (cfg : IngestConfig) (s : Ingest) (i : ℕ) : Option SpanBatch :=
  s.calls[i]?.bind (AcceptCall.sent cfg)

/-- The batches of the calls, in that order. -/
def sent_batches (cfg : IngestConfig) (s : Ingest) (order : List ℕ) : List SpanBatch :=
  order.filterMap (s.sent_at cfg)

/-- What holds of the sends while the system runs: `log` has been applied. -/
structure InOrder (cfg : IngestConfig) (log : List SpanBatch) (order : List ℕ) (s : Ingest) :
    Prop where
  once : order.Nodup
  sent : ∀ i, i ∈ order ↔ (s.sent_at cfg i).isSome
  applied : log <+: s.sent_batches cfg order
  /-- A writer that panics takes the channel with it. -/
  channel : s.writer ≠ .panicked → log ++ s.writer.held ++ s.queue = s.sent_batches cfg order
  room : s.queue.length ≤ cfg.capacity

/-! ## One action -/

section Step

variable {cfg : IngestConfig} {log : List SpanBatch} {order : List ℕ} {s s' : Ingest}

theorem sent_at_of_calls (cfg : IngestConfig) (h : s'.calls = s.calls) (i : ℕ) :
    s'.sent_at cfg i = s.sent_at cfg i := by
  rw [sent_at, sent_at, h]

/-- A call that moves has sent what it sends in its new state. -/
theorem sent_at_move (cfg : IngestConfig) {i : ℕ} {call : AcceptCall}
    (hcall : s.calls[i]? = some call) {state : AcceptState}
    (hcalls : s'.calls = s.calls.set i { call with state }) (j : ℕ) :
    s'.sent_at cfg j
      = if j = i then AcceptCall.sent cfg { call with state } else s.sent_at cfg j := by
  obtain ⟨hi, -⟩ := List.getElem?_eq_some_iff.mp hcall
  rw [sent_at, sent_at, hcalls, List.getElem?_set]
  by_cases hj : j = i
  · rw [if_pos hj, if_pos hj.symm, if_pos (hj ▸ hi)]
    rfl
  · rw [if_neg hj, if_neg (Ne.symm hj)]

theorem sent_at_move_same {i : ℕ} {call : AcceptCall} (hcall : s.calls[i]? = some call)
    {state : AcceptState} (hcalls : s'.calls = s.calls.set i { call with state })
    (hsame : AcceptCall.sent cfg { call with state } = call.sent cfg) (j : ℕ) :
    s'.sent_at cfg j = s.sent_at cfg j := by
  rw [sent_at_move cfg hcall hcalls]
  by_cases hj : j = i
  · rw [if_pos hj, hsame, hj, sent_at, hcall]
    rfl
  · rw [if_neg hj]

/-- A new call has sent nothing. -/
theorem sent_at_accept {call : AcceptCall} (hcalls : s'.calls = s.calls ++ [call])
    (hnone : call.sent cfg = none) (i : ℕ) : s'.sent_at cfg i = s.sent_at cfg i := by
  rw [sent_at, sent_at, hcalls, List.getElem?_append]
  by_cases hi : i < s.calls.length
  · rw [if_pos hi]
  · rw [if_neg hi, List.getElem?_eq_none (Nat.le_of_not_lt hi), List.getElem?_singleton]
    by_cases hzero : i - s.calls.length = 0
    · rw [if_pos hzero]
      exact hnone
    · rw [if_neg hzero]

/-- Nobody has sent anything, and the channel is as it was. -/
theorem InOrder.same (h : InOrder cfg log order s)
    (hsent : ∀ i, s'.sent_at cfg i = s.sent_at cfg i) (hwriter : s'.writer = s.writer)
    (hqueue : s'.queue = s.queue) : InOrder cfg log order s' := by
  have hbatches : s'.sent_batches cfg order = s.sent_batches cfg order :=
    List.filterMap_congr fun i _ => hsent i
  refine ⟨h.once, fun i => ?_, ?_, fun hopen => ?_, ?_⟩
  · rw [hsent i]
    exact h.sent i
  · rw [hbatches]
    exact h.applied
  · rw [hbatches, hwriter, hqueue]
    exact h.channel (hwriter ▸ hopen)
  · rw [hqueue]
    exact h.room

/-- Only the writer moves, and no batch leaves or overtakes another. -/
theorem InOrder.written (h : InOrder cfg log order s) {log' : List SpanBatch}
    (hcalls : s'.calls = s.calls) (hopen : s.writer ≠ .panicked)
    (hroom : s'.queue.length ≤ s.queue.length)
    (hchannel : log' ++ s'.writer.held ++ s'.queue = log ++ s.writer.held ++ s.queue) :
    InOrder cfg log' order s' := by
  have hsent := sent_at_of_calls cfg hcalls
  have hall : log' ++ s'.writer.held ++ s'.queue = s'.sent_batches cfg order := by
    rw [hchannel, h.channel hopen]
    exact (List.filterMap_congr fun i _ => hsent i).symm
  refine ⟨h.once, fun i => ?_, ?_, fun _ => hall, hroom.trans h.room⟩
  · rw [hsent i]
    exact h.sent i
  · rw [← hall, List.append_assoc]
    exact List.prefix_append _ _

/-- **A send completes.** The call is the last one in the order, as its batch is
in the channel. -/
theorem InOrder.send (h : InOrder cfg log order s) {i : ℕ} {call : AcceptCall}
    {batch : SpanBatch} {state : AcceptState} (hcall : s.calls[i]? = some call)
    (hcalls : s'.calls = s.calls.set i { call with state })
    (hbefore : call.sent cfg = none) (hafter : AcceptCall.sent cfg { call with state } = some batch)
    (hwriter : s'.writer = s.writer) (hopen : s.writer.is_open = true)
    (hqueue : s'.queue = s.queue ++ [batch]) (hroom : s.queue.length < cfg.capacity) :
    InOrder cfg log (order ++ [i]) s' := by
  have hmove := sent_at_move cfg hcall hcalls
  have hnone : s.sent_at cfg i = none := by
    rw [sent_at, hcall]
    exact hbefore
  have hnew : i ∉ order := fun hi => by
    rw [h.sent i, hnone] at hi
    cases hi
  have hbatches : s'.sent_batches cfg (order ++ [i]) = s.sent_batches cfg order ++ [batch] := by
    rw [sent_batches, sent_batches, List.filterMap_append]
    congr 1
    · refine List.filterMap_congr fun j hj => ?_
      have hne : j ≠ i := fun heq => hnew (heq ▸ hj)
      rw [hmove, if_neg hne]
    · rw [List.filterMap_cons, hmove, if_pos rfl, hafter]
      rfl
  refine ⟨?_, fun j => ?_, ?_, fun _ => ?_, ?_⟩
  · rw [List.nodup_append]
    refine ⟨h.once, List.nodup_singleton i, fun j hj k hk => ?_⟩
    rintro rfl
    exact hnew (List.mem_singleton.mp hk ▸ hj)
  · rw [List.mem_append, List.mem_singleton, hmove, h.sent j]
    by_cases hj : j = i
    · rw [if_pos hj, hafter]
      exact iff_of_true (Or.inr hj) rfl
    · rw [if_neg hj]
      exact or_iff_left hj
  · rw [hbatches]
    exact h.applied.trans (List.prefix_append _ _)
  · rw [hbatches, hwriter, hqueue, ← List.append_assoc, h.channel]
    intro hpanicked
    rw [hpanicked] at hopen
    cases hopen
  · rw [hqueue, List.length_append]
    exact hroom

/-- **The step lemma.** -/
theorem InOrder.step (h : InOrder cfg log order s) (hfaithful : ∀ call ∈ s.calls, call.Faithful cfg)
    {action : IngestAction} (hs : s.step cfg action = some s') :
    InOrder cfg (log_applied log s action s') (log_sent order s action s') s' := by
  -- only `apply` logs
  have unlogged : s'.writer = s.writer → log_applied log s action s' = log := fun hw => by
    unfold log_applied
    rw [hw]
    cases s.writer <;> rfl
  cases acts_of_step hs with
  | accept hsenders =>
    rw [unlogged rfl]
    exact h.same (sent_at_accept rfl rfl) rfl rfl
  | @convert i call hcall hstate =>
    rw [unlogged rfl]
    refine h.same (sent_at_move_same hcall rfl ?_) rfl rfl
    rw [(converted_faithful cfg call).2, AcceptCall.sent, AcceptCall.accepted, hstate]
  | @record_reject i now call reason error hcall hstate =>
    rw [unlogged rfl]
    refine h.same (sent_at_move_same hcall rfl ?_) rfl rfl
    rw [AcceptCall.sent, AcceptCall.sent, AcceptCall.accepted, AcceptCall.accepted, hstate]
  | @send i call batch span_count hcall hstate hopen hroom =>
    rw [unlogged rfl]
    have hf := hfaithful call (List.mem_of_getElem? hcall)
    rw [AcceptCall.Faithful, hstate] at hf
    exact h.send hcall rfl (AcceptCall.sent_of_sending hstate) hf.1 rfl hopen rfl hroom
  | @send_closed i call batch span_count hcall hstate hclosed =>
    rw [unlogged rfl]
    exact h.same (sent_at_move_same hcall rfl (AcceptCall.sent_of_sending hstate).symm) rfl rfl
  | @timeout i call batch span_count hcall hstate =>
    rw [unlogged rfl]
    exact h.same (sent_at_move_same hcall rfl (AcceptCall.sent_of_sending hstate).symm) rfl rfl
  | @drop i call batch span_count hcall hstate =>
    rw [unlogged rfl]
    exact h.same (sent_at_move_same hcall rfl (AcceptCall.sent_of_sending hstate).symm) rfl rfl
  | @record_arrival i call span_count hcall hstate =>
    rw [unlogged rfl]
    refine h.same (sent_at_move_same hcall rfl ?_) rfl rfl
    rw [AcceptCall.sent, AcceptCall.sent, hstate]
    rfl
  | @recv batch queue hwriter hqueue =>
    rw [log_applied_of_empty (by rw [hwriter]; rfl)]
    refine h.written rfl (by simp [hwriter]) ?_ ?_
    · rw [hqueue]
      exact Nat.le_succ _
    · rw [hwriter, hqueue]
      simp [WriterState.held]
  | @apply now trace_order batch store hwriter hstore =>
    have hlog : log_applied log s (.apply now trace_order) { s with store, writer := .applied }
        = log ++ [batch] := by unfold log_applied; rw [hwriter]
    rw [hlog]
    refine h.written rfl (by simp [hwriter]) (Nat.le_refl _) ?_
    rw [hwriter]
    simp [WriterState.held]
  | @panic now trace_order batch hwriter hstore =>
    have hlog : log_applied log s (.apply now trace_order)
        { s with writer := .panicked, queue := [] } = log := by unfold log_applied; rw [hwriter]
    rw [hlog]
    exact ⟨h.once, h.sent, h.applied, fun hopen => absurd rfl hopen, Nat.zero_le _⟩
  | bump hwriter =>
    rw [log_applied_of_empty (by rw [hwriter]; rfl)]
    refine h.written rfl (by simp [hwriter]) (Nat.le_refl _) ?_
    rw [hwriter]
    rfl
  | stop hwriter hqueue hcalls =>
    rw [log_applied_of_empty (by rw [hwriter]; rfl)]
    refine h.written rfl (by simp [hwriter]) (Nat.le_refl _) ?_
    rw [hwriter]
    rfl

end Step

/-- **The run lemma.** -/
theorem inOrder_of_run {cfg : IngestConfig} {store : Store} {actions : List IngestAction}
    {s : Ingest} (h : exec (step cfg) actions (start store) = some s) :
    InOrder cfg (applied cfg actions (start store)) (send_order cfg actions (start store)) s := by
  refine exec_induction (P := fun actions s => InOrder cfg (applied cfg actions (start store))
      (send_order cfg actions (start store)) s) ?_ ?_ h
  · refine ⟨List.nodup_nil, fun i => ?_, List.nil_prefix, fun _ => rfl, Nat.zero_le _⟩
    exact iff_of_false List.not_mem_nil nofun
  · intro actions s action s' hrun ih hs
    rw [applied, send_order, ghost_snoc hrun hs, ghost_snoc hrun hs]
    exact ih.step (accounts_of_run hrun).faithful hs

/-- The order is only extended. -/
theorem log_sent_prefix (order : List ℕ) (s : Ingest) (action : IngestAction) (s' : Ingest) :
    order <+: log_sent order s action s' := by
  cases action with
  | send i => exact List.prefix_append _ _
  | _ => exact List.prefix_refl _

/-- **A call that had sent before another was made** stands before it. -/
theorem sent_before {cfg : IngestConfig} {store : Store} {actions more : List IngestAction}
    {s s' : Ingest} (h : exec (step cfg) actions (start store) = some s)
    (h' : exec (step cfg) more s = some s') {i j : ℕ} (hi : (s.sent_at cfg i).isSome)
    (hj : s.calls.length ≤ j) (hsent : (s'.sent_at cfg j).isSome) :
    [i, j].Sublist (send_order cfg (actions ++ more) (start store)) := by
  have horder : send_order cfg actions (start store) <+:
      send_order cfg (actions ++ more) (start store) := by
    rw [send_order, send_order, ghost_append h]
    exact prefix_ghost log_sent_prefix _ _ _
  obtain ⟨later, hlater⟩ := horder
  have hi' : i ∈ send_order cfg actions (start store) := ((inOrder_of_run h).sent i).mpr hi
  have hj' : j ∈ later := by
    have hmem := ((inOrder_of_run (exec_trans h h')).sent j).mpr hsent
    rw [← hlater, List.mem_append] at hmem
    refine hmem.resolve_left fun hearly => ?_
    -- the call was not there yet
    have hnone := ((inOrder_of_run h).sent j).mp hearly
    rw [sent_at, List.getElem?_eq_none hj] at hnone
    cases hnone
  rw [← hlater]
  exact (List.singleton_sublist.mpr hi').append (List.singleton_sublist.mpr hj')

/-- **The writer applies the batches in the order of the sends.** Each call is in
that order once if its send completed and never otherwise; what has been applied
is a beginning of the batches in that order, and the writer's batch and the
channel, which never holds more than its capacity, are the rest unless the writer
panicked; and a call whose send had completed when another was made stands before
it. -/
theorem applied_in_send_order {cfg : IngestConfig} {store : Store} {actions : List IngestAction}
    {s : Ingest} (h : exec (step cfg) actions (start store) = some s) :
    let order := send_order cfg actions (start store)
    (order.Nodup ∧ ∀ i, i ∈ order ↔ ∃ call batch, s.calls[i]? = some call
        ∧ call.sent cfg = some batch)
      ∧ applied cfg actions (start store) <+: s.sent_batches cfg order
      ∧ (s.writer ≠ .panicked → applied cfg actions (start store) ++ s.writer.held ++ s.queue
          = s.sent_batches cfg order)
      ∧ s.queue.length ≤ cfg.capacity
      ∧ ∀ earlier later s₁, actions = earlier ++ later →
          exec (step cfg) earlier (start store) = some s₁ → ∀ i j, (s₁.sent_at cfg i).isSome →
          s₁.calls.length ≤ j → (s.sent_at cfg j).isSome → [i, j].Sublist order := by
  obtain ⟨honce, hsent, happlied, hchannel, hroom⟩ := inOrder_of_run h
  refine ⟨⟨honce, fun i => ?_⟩, happlied, hchannel, hroom, ?_⟩
  · rw [hsent, sent_at, Option.isSome_iff_exists]
    constructor
    · rintro ⟨batch, hbatch⟩
      obtain ⟨call, hcall, hbatch⟩ := Option.bind_eq_some_iff.mp hbatch
      exact ⟨call, batch, hcall, hbatch⟩
    · rintro ⟨call, batch, hcall, hbatch⟩
      exact ⟨batch, Option.bind_eq_some_iff.mpr ⟨call, hcall, hbatch⟩⟩
  · rintro earlier later s₁ rfl h₁ i j hi hj hj'
    obtain ⟨s₂, h₂, hrest⟩ := exec_append_some h
    obtain rfl := Option.some.inj (h₂.symm.trans h₁)
    exact sent_before h₁ hrest hi hj hj'

/-- Two calls that overtake each other on their way into a channel of one place,
and a third one made when the first of them is done. -/
def overtaking : List IngestAction :=
  [.accept (wire_request [wire_span 16]) .grpc_v4317,
    .accept (wire_request [wire_span 16, wire_span 15]) .http_json_v4318,
    .convert 0, .convert 1, .send 1, .recv, .record_arrival 1, .send 0,
    .accept (wire_request [wire_span 16, wire_span 16]) .grpc_v4317, .convert 2,
    .apply 7 TraceOrder.by_id, .bump, .recv, .send 2]

theorem overtaking_run :
    (exec (step small_channel) overtaking (start (Store.new 1000))).isSome := by
  decide +kernel

theorem applied_in_send_order_overtaking :
    ∃ s, exec (step small_channel) overtaking (start (Store.new 1000)) = some s
      ∧ applied small_channel overtaking (start (Store.new 1000)) ++ s.writer.held ++ s.queue
        = s.sent_batches small_channel [1, 0, 2] := by
  have hrun := (Option.some_get overtaking_run).symm
  have horder : send_order small_channel overtaking (start (Store.new 1000)) = [1, 0, 2] := by
    decide +kernel
  have hall := (applied_in_send_order hrun).2.2.1 (by decide +kernel)
  rw [horder] at hall
  exact ⟨_, hrun, hall⟩

end Ingest

end Spanfall
