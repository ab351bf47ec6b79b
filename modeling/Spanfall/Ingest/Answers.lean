/-
`Answers.lean` -- what an exporter can conclude from its answer.

Both transports map the result of `accept` to an answer of their own
([`http_response`], [`grpc_response`]), and to an exporter three answers differ: it
is done, it should send again, or neither. What it is told is true
([`told_truly`]): a request with spans has been put into the channel, once, if and
only if the answer says done; and an answer that says again was given without a
trace of the request, so that sending it again doubles nothing.
-/
import Spanfall.Ingest.Export
import Spanfall.Ingest.Order
import Spanfall.Ingest.Progress
import Spanfall.Ingest.Wire

set_option autoImplicit false

namespace Spanfall

open Lib.Runs Lib.Vec

/-! ## The answers -/

/-- The answer says that the request was taken. -/
def Transport.done (printable : Char → Bool) (transport : Transport)
    (result : Except IngestError Unit) : Bool :=
  match transport with
  | .grpc_v4317 => (grpc_response printable result).isOk
  | _ => decide ((http_response printable result).status = 200)

/-- The answer asks for the request to be sent again. -/
def Transport.again (printable : Char → Bool) (transport : Transport)
    (result : Except IngestError Unit) : Bool :=
  match transport with
  | .grpc_v4317 =>
    match grpc_response printable result with
    | .error (.resource_exhausted, _) => true
    | _ => false
  | _ => (http_response printable result).retry_after.isSome

/-- The transports agree on when an exporter is done, -/
theorem Transport.done_iff (printable : Char → Bool) (transport : Transport)
    (result : Except IngestError Unit) :
    transport.done printable result = true ↔ result = .ok () ∨ result = .error (.reject .empty_payload) := by
  cases result with
  | ok u => cases transport <;> simp [done, grpc_response, http_response, Except.isOk, Except.toBool]
  | error error =>
    cases error with
    | reject reason =>
      cases reason <;> cases transport <;>
        simp [done, grpc_response, http_response, http_bad_request, Except.isOk, Except.toBool]
    | _ => cases transport <;> simp [done, grpc_response, http_response, Except.isOk, Except.toBool]

/-- and on when it is to send again. -/
theorem Transport.again_iff (printable : Char → Bool) (transport : Transport)
    (result : Except IngestError Unit) :
    transport.again printable result = true ↔ result = .error .backpressure := by
  cases result with
  | ok u => cases transport <;> simp [again, grpc_response, http_response]
  | error error =>
    cases error with
    | reject reason =>
      cases reason <;> cases transport <;>
        simp [again, grpc_response, http_response, http_bad_request]
    | _ => cases transport <;> simp [again, grpc_response, http_response]

/-! ## What is due -/

/-- A request without spans is refused, and not with a panic. -/
theorem convert_of_empty (panic_injection : Bool) {request : ExportTraceServiceRequest}
    (h : wire_spans request = []) :
    convert panic_injection request = some (.error .empty_payload) := by
  rw [wire_spans, List.flatMap_eq_nil_iff] at h
  have hfold : ∀ acc, request.resource_spans.foldlM (convert_resource panic_injection) acc
      = some acc := by
    refine foldlM_unchanged fun resource_spans hresource acc => ?_
    refine foldlM_unchanged (fun scope_spans hscope acc => ?_) acc
    have hnone := List.flatMap_eq_nil_iff.mp (h resource_spans hresource) scope_spans hscope
    rw [List.map_eq_nil_iff.mp hnone]
    rfl
  rw [convert, hfold]
  rfl

/-- What a request with spans can be due. -/
theorem AcceptCall.due_of_spans (cfg : IngestConfig) {call : AcceptCall}
    (h : wire_spans call.request ≠ []) :
    (call.due cfg = .ok () ∧ (call.batch cfg).isSome)
      ∨ call.due cfg = .error .conversion_panicked := by
  rw [due, batch]
  cases hconvert : convert cfg.panic_injection call.request with
  | none => exact Or.inr rfl
  | some result =>
    have hplain := convert_uninjected hconvert
    rw [convert_eq, if_neg h, Option.some.injEq] at hplain
    rw [← hplain]
    exact Or.inl ⟨rfl, rfl⟩

/-- One without is refused, whatever else. -/
theorem AcceptCall.due_of_empty {cfg : IngestConfig} {call : AcceptCall}
    (h : wire_spans call.request = []) : call.due cfg = .error (.reject .empty_payload) := by
  rw [due, convert_of_empty _ h]

theorem AcceptCall.due_empty_iff {cfg : IngestConfig} {call : AcceptCall} :
    call.due cfg = .error (.reject .empty_payload) ↔ wire_spans call.request = [] := by
  refine ⟨fun hdue => ?_, due_of_empty⟩
  by_contra hspans
  rcases due_of_spans cfg hspans with ⟨hok, -⟩ | hpanic
  · rw [hok] at hdue
    cases hdue
  · rw [hpanic] at hdue
    cases hdue

/-- The failures of a send are not due. -/
theorem AcceptCall.due_ne_send_error {cfg : IngestConfig} (call : AcceptCall) :
    call.due cfg ≠ .error .backpressure ∧ call.due cfg ≠ .error .writer_gone := by
  unfold due
  cases convert cfg.panic_injection call.request with
  | none => simp
  | some result => cases result <;> simp

/-- What a call does is what it is due, as long as its send does not fail. -/
def AcceptCall.Earned (cfg : IngestConfig) (call : AcceptCall) : Prop :=
  match call.state with
  | .converting => True
  | .rejecting _ error => call.due cfg = .error error
  | .sending _ _ => call.due cfg = .ok ()
  | .recording _ => call.due cfg = .ok ()
  | .returned (.error .backpressure) => call.due cfg = .ok ()
  | .returned (.error .writer_gone) => call.due cfg = .ok ()
  | .returned result => call.due cfg = result
  | .dropped => call.due cfg = .ok ()

namespace Ingest

variable {cfg : IngestConfig} {s s' : Ingest} {action : IngestAction}

theorem converted_earned (cfg : IngestConfig) (call : AcceptCall) :
    AcceptCall.Earned cfg { call with state := call.converted cfg } := by
  unfold AcceptCall.Earned AcceptCall.converted AcceptCall.due
  cases hconvert : convert cfg.panic_injection call.request with
  | none => simp
  | some result => cases result <;> simp

/-- One action: a call stays where it is or does its next step. -/
theorem earned_step (h : ∀ call ∈ s.calls, call.Earned cfg) (hs : s.step cfg action = some s') :
    ∀ call ∈ s'.calls, call.Earned cfg := by
  have move : ∀ {i : ℕ} {call : AcceptCall} {state : AcceptState}, s.calls[i]? = some call →
      (call.Earned cfg → AcceptCall.Earned cfg { call with state }) →
      ∀ other ∈ s.calls.set i { call with state }, other.Earned cfg := by
    intro i call state hcall hnext other hother
    rcases List.mem_or_eq_of_mem_set hother with hold | rfl
    · exact h other hold
    · exact hnext (h call (List.mem_of_getElem? hcall))
  cases acts_of_step hs with
  | accept hsenders =>
    intro call hcall
    rcases List.mem_append.mp hcall with hold | hnew
    · exact h call hold
    · rw [List.mem_singleton.mp hnew]
      exact trivial
  | convert hcall hstate => exact move hcall fun _ => converted_earned cfg _
  | record_reject hcall hstate =>
    refine move hcall fun hdue => ?_
    rw [AcceptCall.Earned, hstate] at hdue
    rename_i error
    cases error with
    | reject reason => exact hdue
    | conversion_panicked => exact hdue
    | backpressure => exact absurd hdue (AcceptCall.due_ne_send_error _).1
    | writer_gone => exact absurd hdue (AcceptCall.due_ne_send_error _).2
  | send hcall hstate hopen hroom =>
    refine move hcall fun hdue => ?_
    rw [AcceptCall.Earned, hstate] at hdue
    exact hdue
  | send_closed hcall hstate | timeout hcall hstate | drop hcall hstate
  | record_arrival hcall hstate =>
    refine move hcall fun hdue => ?_
    rw [AcceptCall.Earned, hstate] at hdue
    exact hdue
  | recv | apply | panic | bump | stop => exact h

theorem earned_of_run {store : Store} {actions : List IngestAction}
    (h : exec (step cfg) actions (start store) = some s) : ∀ call ∈ s.calls, call.Earned cfg :=
  exec_induction (P := fun _ s => ∀ call ∈ s.calls, call.Earned cfg)
    (fun _ hcall => absurd hcall List.not_mem_nil)
    (fun _ _ _ _ _ hearned hs => earned_step hearned hs) h

/-- Call `i` has returned, with an answer of that kind. -/
def Told (s : Ingest) (kind : Transport → Except IngestError Unit → Bool) (i : ℕ) : Prop :=
  ∃ call result, s.calls[i]? = some call ∧ call.state = .returned result
    ∧ kind call.transport result = true

/-- The spans on the wire of call `i`. -/
def spans_at (s : Ingest) (i : ℕ) : List (ResourceSpans × PbSpan) :=
  (s.calls[i]?.map fun call => wire_spans call.request).getD []

/-- A call that has returned has sent its batch if the result is `Ok` and not else. -/
theorem sent_of_returned {i : ℕ} {call : AcceptCall} {result : Except IngestError Unit}
    (hcall : s.calls[i]? = some call) (hstate : call.state = .returned result)
    (hearned : call.Earned cfg) :
    (s.sent_at cfg i).isSome ↔ result = .ok () := by
  rw [sent_at, hcall, Option.bind_some, AcceptCall.sent, AcceptCall.accepted, hstate]
  rw [AcceptCall.Earned, hstate] at hearned
  cases result with
  | error error => simp
  | ok u =>
    refine iff_of_true ?_ rfl
    by_cases hspans : wire_spans call.request = []
    · rw [AcceptCall.due_of_empty hspans] at hearned
      cases hearned
    · rcases AcceptCall.due_of_spans cfg hspans with ⟨-, hbatch⟩ | hpanic
      · exact hbatch
      · rw [hpanic] at hearned
        cases hearned

/-- What was sent has spans. -/
theorem spans_of_sent {i : ℕ} (hsent : (s.sent_at cfg i).isSome) : s.spans_at i ≠ [] := by
  obtain ⟨batch, hbatch⟩ := Option.isSome_iff_exists.mp hsent
  obtain ⟨call, hcall, hsent⟩ := Option.bind_eq_some_iff.mp hbatch
  have hconverted := AcceptCall.batch_of_sent hsent
  rw [spans_at, hcall, Option.map_some, Option.getD_some]
  intro hnone
  rw [AcceptCall.batch, convert_of_empty _ hnone] at hconverted
  cases hconverted

/-- **What exporters are told is true.** A call that was told it is done stands in the
order of the sends, which has each call once, if it has spans; one that was told to
send again does not, and no more does one that was told neither. So an exporter that
sends a request with spans again as long as it is told to, and is told at last that
it is done, has sent it once. And when all is quiet, what has been applied are the
requests with spans whose exporters were told that they are done. -/
theorem told_truly {store : Store} {actions : List IngestAction}
    (h : exec (step cfg) actions (start store) = some s) :
    let order := send_order cfg actions (start store)
    order.Nodup
      ∧ (∀ i, s.Told (Transport.done cfg.printable) i → (i ∈ order ↔ s.spans_at i ≠ []))
      ∧ (∀ i, s.Told (Transport.again cfg.printable) i → i ∉ order ∧ s.spans_at i ≠ [])
      ∧ (∀ i, s.Told (fun transport result => !transport.done cfg.printable result) i → i ∉ order)
      ∧ (∀ attempts last, (∀ i ∈ attempts, s.Told (Transport.again cfg.printable) i) →
          s.Told (Transport.done cfg.printable) last → s.spans_at last ≠ [] →
          (order.filter fun i => decide (i ∈ attempts ++ [last])) = [last])
      ∧ (s.Quiet → applied cfg actions (start store) = s.sent_batches cfg order
          ∧ ∀ i, i ∈ order ↔ s.Told (Transport.done cfg.printable) i ∧ s.spans_at i ≠ []) := by
  have horder := inOrder_of_run h
  have hearned := earned_of_run h
  have returned : ∀ {i : ℕ} {call : AcceptCall} {result : Except IngestError Unit},
      s.calls[i]? = some call → call.state = .returned result →
      (i ∈ send_order cfg actions (start store) ↔ result = .ok ()) := fun hcall hstate => by
    rw [horder.sent]
    exact sent_of_returned hcall hstate (hearned _ (List.mem_of_getElem? hcall))
  have hdone : ∀ i, s.Told (Transport.done cfg.printable) i →
      (i ∈ send_order cfg actions (start store) ↔ s.spans_at i ≠ []) := by
    rintro i ⟨call, result, hcall, hstate, hkind⟩
    refine ⟨fun hi => spans_of_sent ((horder.sent i).mp hi), fun hspans => ?_⟩
    rcases (Transport.done_iff _ _ _).mp hkind with hok | hempty
    · exact (returned hcall hstate).mpr hok
    · have hdue := hearned _ (List.mem_of_getElem? hcall)
      rw [AcceptCall.Earned, hstate, hempty] at hdue
      rw [spans_at, hcall, Option.map_some, Option.getD_some] at hspans
      exact absurd (AcceptCall.due_empty_iff.mp hdue) hspans
  have hagain : ∀ i, s.Told (Transport.again cfg.printable) i →
      i ∉ send_order cfg actions (start store) ∧ s.spans_at i ≠ [] := by
    rintro i ⟨call, result, hcall, hstate, hkind⟩
    have hresult := (Transport.again_iff _ _ _).mp hkind
    refine ⟨fun hi => ?_, ?_⟩
    · rw [returned hcall hstate, hresult] at hi
      cases hi
    · have hdue := hearned _ (List.mem_of_getElem? hcall)
      rw [AcceptCall.Earned, hstate, hresult] at hdue
      rw [spans_at, hcall, Option.map_some, Option.getD_some]
      intro hnone
      rw [AcceptCall.due_of_empty hnone] at hdue
      cases hdue
  refine ⟨horder.once, hdone, hagain, ?_, ?_, ?_⟩
  · rintro i ⟨call, result, hcall, hstate, hkind⟩ hi
    rw [returned hcall hstate] at hi
    rw [Bool.not_eq_true', ← Bool.not_eq_true, Transport.done_iff] at hkind
    exact hkind (Or.inl hi)
  · intro attempts last hattempts hlast hspans
    have hmem : ∀ i ∈ send_order cfg actions (start store),
        (decide (i ∈ attempts ++ [last])) = decide (i = last) := by
      intro i hi
      refine decide_eq_decide.mpr ⟨fun hin => ?_, fun heq => by simp [heq]⟩
      rcases List.mem_append.mp hin with hearly | hsame
      · exact absurd hi (hagain i (hattempts i hearly)).1
      · exact List.mem_singleton.mp hsame
    rw [List.filter_congr hmem, List.filter_eq,
      List.count_eq_one_of_mem horder.once ((hdone last hlast).mpr hspans)]
    rfl
  · intro hquiet
    have hwriter : s.writer ≠ .panicked ∧ s.writer.held = [] := by
      rcases hquiet.writer with hw | hw <;> rw [hw] <;> exact ⟨by simp, rfl⟩
    refine ⟨?_, fun i => ⟨fun hi => ?_, fun hi => (hdone i hi.1).mpr hi.2⟩⟩
    · have hall := horder.channel hwriter.1
      rwa [hwriter.2, hquiet.queue, List.append_nil, List.append_nil] at hall
    · have hsent := (horder.sent i).mp hi
      refine ⟨?_, spans_of_sent hsent⟩
      obtain ⟨batch, hbatch⟩ := Option.isSome_iff_exists.mp hsent
      obtain ⟨call, hcall, hsent⟩ := Option.bind_eq_some_iff.mp hbatch
      have hfinished := hquiet.calls call (List.mem_of_getElem? hcall)
      cases hstate : call.state with
      | returned result =>
        exact ⟨call, result, hcall, hstate,
          (Transport.done_iff _ _ _).mpr (Or.inl ((returned hcall hstate).mp hi))⟩
      | dropped =>
        rw [AcceptCall.sent, AcceptCall.accepted, hstate] at hsent
        cases hsent
      | _ =>
        rw [hstate] at hfinished
        cases hfinished

/-- An exporter is told to send again while another one fills the channel, and is
done with its second call, over HTTP. A third one has nothing to send. -/
def told_again : List IngestAction :=
  [.accept (wire_request [wire_span 16, wire_span 15]) .grpc_v4317, .convert 0, .send 0,
    .accept (wire_request [wire_span 16]) .http_json_v4318, .convert 1, .timeout 1, .recv,
    .accept (wire_request [wire_span 16]) .http_json_v4318, .convert 2, .send 2,
    .accept (wire_request []) .grpc_v4317, .convert 3, .record_reject 3 9,
    .apply 7 TraceOrder.by_id, .record_arrival 2, .bump, .recv, .record_arrival 0,
    .apply 8 TraceOrder.by_id, .bump]

theorem told_again_run :
    (exec (step small_channel) told_again (start (Store.new 1000))).isSome := by
  decide +kernel

/-- A call's answer, as it can be seen. -/
theorem Told.of_state {kind : Transport → Except IngestError Unit → Bool} {i : ℕ}
    (h : (s.calls[i]?.any fun call =>
      match call.state with
      | .returned result => kind call.transport result
      | _ => false) = true) : s.Told kind i := by
  obtain ⟨call, hcall, hkind⟩ := (Option.any_eq_true _ _).mp h
  split at hkind
  · rename_i result hstate
    exact ⟨call, result, hcall, hstate, hkind⟩
  · cases hkind

theorem told_truly_again :
    ∃ s, exec (step small_channel) told_again (start (Store.new 1000)) = some s
      ∧ (send_order small_channel told_again (start (Store.new 1000))).filter
          (fun i => decide (i ∈ [1] ++ [2])) = [2]
      ∧ applied small_channel told_again (start (Store.new 1000))
        = s.sent_batches small_channel [0, 2] := by
  have hrun := (Option.some_get told_again_run).symm
  have hquiet : (Option.get _ told_again_run).Quiet :=
    { calls := by decide +kernel, queue := by decide +kernel, writer := by decide +kernel }
  have horder : send_order small_channel told_again (start (Store.new 1000)) = [0, 2] := by
    decide +kernel
  obtain ⟨-, -, -, -, honce, hall⟩ := told_truly hrun
  have hagain : ∀ i ∈ [1], (Option.get _ told_again_run).Told
      (Transport.again small_channel.printable) i := by
    intro i hi
    rw [List.mem_singleton.mp hi]
    exact .of_state (by decide +kernel)
  have happlied := (hall hquiet).1
  rw [horder] at happlied
  exact ⟨_, hrun, honce [1] 2 hagain (.of_state (by decide +kernel)) (by decide +kernel), happlied⟩

end Ingest

end Spanfall
