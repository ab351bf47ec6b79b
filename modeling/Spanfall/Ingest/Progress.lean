/-
`Progress.lean` -- what is under way comes to its end.

Only a new request brings work. Everything else that happens takes some away
([`work_lt`]), and while there is something left to do and the writer is alive,
something can be done ([`quiet_or_enabled`]): a full channel means that the
writer can move, and a channel with room that the sender can. So the requests
under way are answered whatever the schedule, and without timeouts and dropped
connections each with the result that its own content calls for
([`pending_answered`]).
-/
import Spanfall.Ingest.Turns

set_option autoImplicit false

namespace Spanfall

open Lib.Runs Lib.Vec

/-- What a call has left to do: a batch on its way is in the channel and in the
writer's hand after it. -/
def AcceptState.work : AcceptState → ℕ
  | converting => 6
  | rejecting _ _ => 1
  | sending _ _ => 5
  | recording _ => 1
  | returned _ => 0
  | dropped => 0

/-- What the writer has left to do. -/
def WriterState.work : WriterState → ℕ
  | waiting => 1
  | received _ => 3
  | applied => 2
  | ended => 0
  | panicked => 0

/-- The result that the request calls for. -/
def AcceptCall.due (cfg : IngestConfig) (call : AcceptCall) : Except IngestError Unit :=
  match Spanfall.convert cfg.panic_injection call.request with
  | some (.ok _) => .ok ()
  | some (.error reason) => .error (.reject reason)
  | none => .error .conversion_panicked

/-- The call returns the result that is due, or has returned it. -/
def AcceptCall.OnCourse (cfg : IngestConfig) (call : AcceptCall) : Prop :=
  match call.state with
  | .converting => True
  | .rejecting _ error => call.due cfg = .error error
  | .sending _ _ => call.due cfg = .ok ()
  | .recording _ => call.due cfg = .ok ()
  | .returned result => call.due cfg = result
  | .dropped => False

/-- Neither a new call nor one that is given up. -/
def IngestAction.internal : IngestAction → Bool
  | accept _ _ => false
  | timeout _ => false
  | drop _ => false
  | _ => true

theorem IngestAction.inside_of_internal {action : IngestAction} (h : action.internal = true) :
    action.inside = true := by
  cases action with
  | accept => cases h
  | _ => rfl

namespace Ingest

/-- What there is to do. -/
def work (s : Ingest) : ℕ :=
  (s.calls.map (·.state.work)).sum + 3 * s.queue.length + s.writer.work

/-- A writer that is gone has left nothing in the channel, and one that ended
nobody in a call. -/
structure Left (s : Ingest) : Prop where
  queue : s.writer.is_open = false → s.queue = []
  calls : s.writer = .ended → ∀ call ∈ s.calls, call.state.finished = true

section Step

variable {cfg : IngestConfig} {s s' : Ingest} {action : IngestAction}

/-- **Every action but a new call leaves less to do.** -/
theorem work_lt (hs : s.step cfg action = some s') (hinside : action.inside = true) :
    s'.work < s.work := by
  have move : ∀ {i : ℕ} {call : AcceptCall} {before : AcceptState} (state : AcceptState),
      s.calls[i]? = some call → call.state = before →
      ((s.calls.set i { call with state }).map (·.state.work)).sum + before.work
        = (s.calls.map (·.state.work)).sum + state.work := by
    intro i call before state hcall hbefore
    rw [← hbefore]
    exact sum_map_set (fun call : AcceptCall => call.state.work) hcall { call with state }
  cases acts_of_step hs with
  | accept => cases hinside
  | @convert i call hcall hstate =>
    have hset := move (call.converted cfg) hcall hstate
    have hless : (call.converted cfg).work ≤ 5 := by
      unfold AcceptCall.converted
      cases convert cfg.panic_injection call.request with
      | none => simp [AcceptState.work]
      | some result => cases result <;> simp [AcceptState.work]
    have hconverting : AcceptState.converting.work = 6 := rfl
    simp only [work, Ingest.move] at hset ⊢
    omega
  | @record_reject i now call reason error hcall hstate =>
    have hset := move (.returned (.error error)) hcall hstate
    simp only [work, Ingest.move, AcceptState.work] at hset ⊢
    omega
  | @send i call batch span_count hcall hstate hopen hroom =>
    -- one less for the call than its batch costs from here
    have hset := move (.recording span_count) hcall hstate
    simp only [work, Ingest.move, AcceptState.work, List.length_append, List.length_singleton]
      at hset ⊢
    omega
  | @send_closed i call batch span_count hcall hstate hclosed =>
    have hset := move (.returned (.error .writer_gone)) hcall hstate
    simp only [work, Ingest.move, AcceptState.work] at hset ⊢
    omega
  | @timeout i call batch span_count hcall hstate =>
    have hset := move (.returned (.error .backpressure)) hcall hstate
    simp only [work, Ingest.move, AcceptState.work] at hset ⊢
    omega
  | @drop i call batch span_count hcall hstate =>
    have hset := move .dropped hcall hstate
    simp only [work, Ingest.move, AcceptState.work] at hset ⊢
    omega
  | @record_arrival i call span_count hcall hstate =>
    have hset := move (.returned (.ok ())) hcall hstate
    simp only [work, Ingest.move, AcceptState.work] at hset ⊢
    omega
  | recv hwriter hqueue =>
    simp only [work, hwriter, hqueue, WriterState.work, List.length_cons]
    omega
  | apply hwriter hstore | bump hwriter =>
    simp only [work, hwriter, WriterState.work]
    omega
  | panic hwriter hstore =>
    simp only [work, hwriter, WriterState.work, List.length_nil]
    omega
  | stop hwriter hqueue hcalls =>
    simp only [work, hwriter, WriterState.work]
    omega

theorem Left.step (h : s.Left) (hs : s.step cfg action = some s') : s'.Left := by
  -- a call that moves is under way, so the writer has not ended
  have move : ∀ {i : ℕ} {call : AcceptCall}, s.calls[i]? = some call →
      call.state.finished = false → s.writer ≠ .ended := by
    intro i call hcall hunfinished hended
    rw [h.calls hended call (List.mem_of_getElem? hcall)] at hunfinished
    cases hunfinished
  have moved : ∀ {i : ℕ} {call : AcceptCall}, s.calls[i]? = some call →
      call.state.finished = false → s'.writer = s.writer → s'.queue = s.queue → s'.Left := by
    intro i call hcall hunfinished hwriter hqueue
    refine ⟨fun hclosed => ?_, fun hended => ?_⟩
    · rw [hqueue]
      exact h.queue (hwriter ▸ hclosed)
    · exact absurd (hwriter ▸ hended) (move hcall hunfinished)
  cases acts_of_step hs with
  | accept hsenders => exact ⟨h.queue, fun hended => absurd hended hsenders⟩
  | convert hcall hstate | record_reject hcall hstate | send_closed hcall hstate
  | timeout hcall hstate | drop hcall hstate | record_arrival hcall hstate =>
    exact moved hcall (by rw [hstate]; rfl) rfl rfl
  | send hcall hstate hopen hroom =>
    refine ⟨fun hclosed => ?_, fun hended => absurd hended (move hcall (by rw [hstate]; rfl))⟩
    exact nomatch hopen.symm.trans hclosed
  | recv hwriter hqueue => exact ⟨nofun, nofun⟩
  | apply hwriter hstore => exact ⟨nofun, nofun⟩
  | panic hwriter hstore => exact ⟨fun _ => rfl, nofun⟩
  | bump hwriter => exact ⟨nofun, nofun⟩
  | stop hwriter hqueue hcalls =>
    refine ⟨fun _ => hqueue, fun _ call hc => ?_⟩
    exact List.all_eq_true.mp hcalls call hc

/-- The writer can move while it has a batch or one is waiting. -/
theorem writer_enabled (cfg : IngestConfig) (hleft : s.Left) (halive : s.writer ≠ .panicked) :
    (s.queue = [] ∧ (s.writer = .waiting ∨ s.writer = .ended))
      ∨ ∃ action, action.internal = true ∧ (s.step cfg action).isSome := by
  cases hwriter : s.writer with
  | waiting =>
    cases hqueue : s.queue with
    | nil => exact Or.inl ⟨rfl, Or.inl rfl⟩
    | cons batch queue => exact Or.inr ⟨.recv, rfl, by simp [step, hwriter, hqueue]⟩
  | received batch =>
    refine Or.inr ⟨.apply 0 TraceOrder.by_id, rfl, ?_⟩
    rw [step, hwriter]
    dsimp only
    cases s.store.apply_batch batch 0 TraceOrder.by_id <;> rfl
  | applied => exact Or.inr ⟨.bump, rfl, by simp [step, hwriter]⟩
  | ended => exact Or.inl ⟨hleft.queue (by rw [hwriter]; rfl), Or.inr rfl⟩
  | panicked => exact absurd hwriter halive

/-- A call under way can move, or the writer can. -/
theorem call_enabled (hcap : 0 < cfg.capacity) (hleft : s.Left) (halive : s.writer ≠ .panicked)
    {i : ℕ} {call : AcceptCall} (hcall : s.calls[i]? = some call)
    (hunfinished : call.state.finished = false) :
    ∃ action, action.internal = true ∧ (s.step cfg action).isSome := by
  cases hstate : call.state with
  | converting => exact ⟨.convert i, rfl, by simp [step, hcall, hstate]⟩
  | rejecting reason error => exact ⟨.record_reject i 0, rfl, by simp [step, hcall, hstate]⟩
  | sending batch span_count =>
    by_cases hroom : s.writer.is_open = true ∧ s.queue.length < cfg.capacity
    · exact ⟨.send i, rfl, by simp [step, hcall, hstate, hroom]⟩
    · by_cases hopen : s.writer.is_open = true
      · -- the channel is full, so there is something for the writer
        rcases writer_enabled cfg hleft halive with ⟨hqueue, -⟩ | henabled
        · rw [hqueue] at hroom
          exact absurd ⟨hopen, hcap⟩ hroom
        · exact henabled
      · exact ⟨.send_closed i, rfl, by simp [step, hcall, hstate, hopen]⟩
  | recording span_count => exact ⟨.record_arrival i, rfl, by simp [step, hcall, hstate]⟩
  | returned result =>
    rw [hstate] at hunfinished
    cases hunfinished
  | dropped =>
    rw [hstate] at hunfinished
    cases hunfinished

/-- **Nothing gets stuck.** -/
theorem quiet_or_enabled (hcap : 0 < cfg.capacity) (hleft : s.Left)
    (halive : s.writer ≠ .panicked) :
    s.Quiet ∨ ∃ action, action.internal = true ∧ (s.step cfg action).isSome := by
  by_cases hcalls : ∀ call ∈ s.calls, call.state.finished = true
  · rcases writer_enabled cfg hleft halive with ⟨hqueue, hwriter⟩ | henabled
    · exact Or.inl ⟨hcalls, hqueue, hwriter⟩
    · exact Or.inr henabled
  · simp only [not_forall] at hcalls
    obtain ⟨call, hmem, hunfinished⟩ := hcalls
    obtain ⟨i, hcall⟩ := List.mem_iff_getElem?.mp hmem
    exact Or.inr (call_enabled hcap hleft halive hcall (by simpa using hunfinished))

/-- After `convert` a call is on its course. -/
theorem converted_onCourse (cfg : IngestConfig) (call : AcceptCall) :
    AcceptCall.OnCourse cfg { call with state := call.converted cfg } := by
  unfold AcceptCall.OnCourse AcceptCall.due AcceptCall.converted
  dsimp only
  cases hc : convert cfg.panic_injection call.request with
  | none => rfl
  | some result => cases result <;> rfl

/-- **The step lemma.** A call on its course stays on it while nobody gives it
up and the writer is there. -/
theorem onCourse_step (hs : s.step cfg action = some s') (hinternal : action.internal = true)
    (hleft : s.Left) (halive : s.writer ≠ .panicked) {i : ℕ} {call : AcceptCall}
    (hcall : s.calls[i]? = some call) (hcourse : call.OnCourse cfg) :
    ∃ state, s'.calls[i]? = some { call with state }
      ∧ AcceptCall.OnCourse cfg { call with state } := by
  have stays : s'.calls = s.calls → ∃ state, s'.calls[i]? = some { call with state }
      ∧ AcceptCall.OnCourse cfg { call with state } := fun hcalls => by
    rw [hcalls]
    exact ⟨call.state, hcall, hcourse⟩
  -- the call that moves, or another one
  have move : ∀ {j : ℕ} {other : AcceptCall} (state : AcceptState), s.calls[j]? = some other →
      s'.calls = s.calls.set j { other with state } →
      (other.OnCourse cfg → AcceptCall.OnCourse cfg { other with state }) →
      ∃ state, s'.calls[i]? = some { call with state }
        ∧ AcceptCall.OnCourse cfg { call with state } := by
    intro j other state hother hcalls hnext
    rw [hcalls, List.getElem?_set]
    by_cases hij : j = i
    · subst hij
      obtain rfl := Option.some.inj (hother.symm.trans hcall)
      obtain ⟨hj, -⟩ := List.getElem?_eq_some_iff.mp hcall
      exact ⟨state, by rw [if_pos rfl, if_pos hj], hnext hcourse⟩
    · exact ⟨call.state, by rw [if_neg hij]; exact hcall, hcourse⟩
  cases acts_of_step hs with
  | accept | timeout | drop => cases hinternal
  | convert hother hstate => exact move _ hother rfl fun _ => converted_onCourse cfg _
  | record_reject hother hstate | record_arrival hother hstate =>
    refine move _ hother rfl fun hdue => ?_
    rw [AcceptCall.OnCourse, hstate] at hdue
    exact hdue
  | send hother hstate hopen hroom =>
    refine move _ hother rfl fun hdue => ?_
    rw [AcceptCall.OnCourse, hstate] at hdue
    exact hdue
  | @send_closed j other batch span_count hother hstate hclosed =>
    -- nobody is sending when the writer has ended
    exfalso
    have hended : s.writer = .ended := by
      cases hwriter : s.writer with
      | ended => rfl
      | panicked => exact absurd hwriter halive
      | _ => rw [hwriter] at hclosed; cases hclosed
    have hfinished := hleft.calls hended other (List.mem_of_getElem? hother)
    rw [hstate] at hfinished
    cases hfinished
  | recv | apply | panic | bump | stop => exact stays rfl

end Step

variable {cfg : IngestConfig} {actions : List IngestAction} {s : Ingest}

theorem left_of_run {store : Store} (h : exec (step cfg) actions (start store) = some s) :
    s.Left :=
  exec_invariant (fun _ _ _ hleft hs => hleft.step hs)
    (show (start store).Left from ⟨fun _ => rfl, fun _ _ hc => absurd hc List.not_mem_nil⟩) h

/-- A call under way is on its course. -/
theorem onCourse_of_run {store : Store} (h : exec (step cfg) actions (start store) = some s) :
    ∀ call ∈ s.calls, call.state.finished = false → call.OnCourse cfg := by
  refine exec_invariant (I := fun s => ∀ call ∈ s.calls, call.state.finished = false →
    call.OnCourse cfg) ?_ (fun _ hc => absurd hc List.not_mem_nil) h
  intro s action s' ih hs
  have move : ∀ {i : ℕ} {call : AcceptCall} (state : AcceptState), s.calls[i]? = some call →
      (state.finished = false → AcceptCall.OnCourse cfg { call with state }) →
      ∀ c ∈ s.calls.set i { call with state }, c.state.finished = false → c.OnCourse cfg := by
    intro i call state hcall hnext c hc hunfinished
    obtain hc | rfl := List.mem_or_eq_of_mem_set hc
    · exact ih c hc hunfinished
    · exact hnext hunfinished
  cases acts_of_step hs with
  | accept =>
    intro c hc hunfinished
    rcases List.mem_append.mp hc with hc | hc
    · exact ih c hc hunfinished
    · rw [List.mem_singleton.mp hc]
      trivial
  | convert hcall => exact move _ hcall fun _ => converted_onCourse cfg _
  | @send i call batch span_count hcall hstate =>
    refine move _ hcall fun _ => ?_
    have hbefore := ih call (List.mem_of_getElem? hcall) (by rw [hstate]; rfl)
    rw [AcceptCall.OnCourse, hstate] at hbefore
    exact hbefore
  | record_reject hcall | send_closed hcall | timeout hcall | drop hcall | record_arrival hcall =>
    exact move _ hcall nofun
  | _ => exact ih

/-- What is kept behind `s` while nobody calls or gives up. -/
structure Kept (cfg : IngestConfig) (m : ℕ) (s s' : Ingest) : Prop where
  reached : ∃ actions, exec (step cfg) actions (start (Store.new m)) = some s'
  attributes : (s'.calls.map (AcceptCall.attributes cfg)).sum
    = (s.calls.map (AcceptCall.attributes cfg)).sum
  course : ∀ (i : ℕ) (call : AcceptCall), s.calls[i]? = some call → call.state.finished = false →
    ∃ state, s'.calls[i]? = some { call with state }
      ∧ AcceptCall.OnCourse cfg { call with state }

/-- The writer stays alive. -/
theorem Kept.alive {m : ℕ} {s' : Ingest} (h : Kept cfg m s s')
    (hsmall : (s.calls.map (AcceptCall.attributes cfg)).sum < 2 ^ 32) :
    s'.Left ∧ s'.writer ≠ .panicked := by
  obtain ⟨actions, hrun⟩ := h.reached
  exact ⟨left_of_run hrun, writer_alive hrun (by rw [h.attributes]; exact hsmall)⟩

theorem Kept.step {m : ℕ} {s₁ s₂ : Ingest} (h : Kept cfg m s s₁)
    (hsmall : (s.calls.map (AcceptCall.attributes cfg)).sum < 2 ^ 32) {action : IngestAction}
    (hinternal : action.internal = true) (hs : s₁.step cfg action = some s₂) :
    Kept cfg m s s₂ := by
  obtain ⟨hleft, halive⟩ := h.alive hsmall
  obtain ⟨⟨actions, hrun⟩, hsum, hcourse⟩ := h
  refine ⟨⟨actions ++ [action], exec_tail hrun hs⟩, ?_, fun i call hcall hunfinished => ?_⟩
  · rw [← hsum]
    exact attributes_same hs (IngestAction.inside_of_internal hinternal)
  · obtain ⟨state, hcall₁, hcourse₁⟩ := hcourse i call hcall hunfinished
    obtain ⟨next, hcall₂, hcourse₂⟩ := onCourse_step hs hinternal hleft halive hcall₁ hcourse₁
    exact ⟨next, hcall₂, hcourse₂⟩

/-- **The requests under way are answered.** From any state that can be reached,
as long as no new call is made, nothing goes on for longer than there is work;
without timeouts and dropped calls it goes on until the system is quiet; and then
every call that was under way has returned the result that its request calls for. -/
theorem pending_answered {m : ℕ} (h : exec (step cfg) actions (start (Store.new m)) = some s)
    (hcap : 0 < cfg.capacity) (hsmall : (s.calls.map (AcceptCall.attributes cfg)).sum < 2 ^ 32) :
    (∀ more s', (∀ action ∈ more, action.inside = true) → exec (step cfg) more s = some s' →
        more.length ≤ s.work)
      ∧ ∀ more s', (∀ action ∈ more, action.internal = true) → exec (step cfg) more s = some s' →
        (s'.Quiet ∨ ∃ action, action.internal = true ∧ (s'.step cfg action).isSome)
          ∧ (s'.Quiet → ∀ (i : ℕ) (call : AcceptCall), s.calls[i]? = some call →
              call.state.finished = false →
              s'.calls[i]? = some { call with state := .returned (call.due cfg) }) := by
  refine ⟨fun more s' hmore hrun => ?_, fun more s' hmore hrun => ?_⟩
  · have hdown : ∀ (s₁ : Ingest) (action : IngestAction) (s₂ : Ingest), True →
        action.inside = true → step cfg s₁ action = some s₂ → True ∧ s₂.work < s₁.work :=
      fun _ _ _ _ hinside hs => ⟨trivial, work_lt hs hinside⟩
    have hlength := length_le_of_measure work hdown hmore trivial hrun
    omega
  · have hkept : Kept cfg m s s' := by
      refine invariant_of_allowed (fun _ _ _ hk hinternal hs => hk.step hsmall hinternal hs) hmore
        ⟨⟨actions, h⟩, rfl, fun i call hcall hunfinished => ?_⟩ hrun
      exact ⟨call.state, hcall,
        onCourse_of_run h call (List.mem_of_getElem? hcall) hunfinished⟩
    obtain ⟨hleft, halive⟩ := hkept.alive hsmall
    refine ⟨quiet_or_enabled hcap hleft halive, fun hquiet i call hcall hunfinished => ?_⟩
    obtain ⟨state, hcall', hdue⟩ := hkept.course i call hcall hunfinished
    have hfinished := hquiet.calls _ (List.mem_of_getElem? hcall')
    rw [hcall']
    cases state with
    | returned result =>
      have hresult : call.due cfg = result := hdue
      rw [hresult]
    | dropped => exact absurd hdue id
    | _ => cases hfinished

/-- Three requests under way: one in the channel of one place, one that waits for
that place, one that is empty. -/
def three_under_way : List IngestAction :=
  [.accept (wire_request [wire_span 16, wire_span 15]) .grpc_v4317,
    .accept (wire_request [wire_span 16]) .http_json_v4318,
    .accept (wire_request []) .http_protobuf_v4318, .convert 0, .convert 1, .convert 2, .send 0]

theorem three_under_way_run :
    (exec (step small_channel) three_under_way (start (Store.new 1000))).isSome := by
  decide +kernel

/-- From there the writer goes first and then the calls, each as soon as it can. -/
def the_way_out : List IngestAction :=
  [.recv, .apply 7 TraceOrder.by_id, .send 1, .bump, .record_arrival 1, .recv,
    .record_reject 2 9, .apply 8 TraceOrder.by_id, .bump, .record_arrival 0]

theorem the_way_out_run : (exec (step small_channel) the_way_out
    (Option.get _ three_under_way_run)).isSome := by
  decide +kernel

theorem pending_answered_three :
    the_way_out.length ≤ work (Option.get _ three_under_way_run)
      ∧ ((Option.get _ the_way_out_run).calls.map fun call => call.state)
        = [.returned (.ok ()), .returned (.ok ()), .returned (.error (.reject .empty_payload))] := by
  have hrun := (Option.some_get three_under_way_run).symm
  have hout := (Option.some_get the_way_out_run).symm
  obtain ⟨hbound, hanswered⟩ := pending_answered hrun (by decide) (by decide +kernel)
  have hquiet : (Option.get _ the_way_out_run).Quiet :=
    ⟨by decide +kernel, by decide +kernel, by decide +kernel⟩
  have hdue := (hanswered the_way_out _ (by decide) hout).2 hquiet
  refine ⟨hbound the_way_out _ (by decide) hout, ?_⟩
  have hlength : (Option.get _ the_way_out_run).calls.length = 3 := by decide +kernel
  refine List.ext_getElem? fun i => ?_
  rw [List.getElem?_map]
  match i with
  | 0 => rw [hdue 0 _ rfl (by decide +kernel)]; decide +kernel
  | 1 => rw [hdue 1 _ rfl (by decide +kernel)]; decide +kernel
  | 2 => rw [hdue 2 _ rfl (by decide +kernel)]; decide +kernel
  | i + 3 => rw [List.getElem?_eq_none (by omega)]; rfl

end Ingest

end Spanfall
