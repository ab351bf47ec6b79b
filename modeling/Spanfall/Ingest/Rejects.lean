/-
`Rejects.lean` -- whether every envelope failure is recorded.

A request is decided when it has been answered: in front of `accept` at once, else
when its call of `accept` ends. The decisions, in that order, are what the ring of
rejects should show the end of, one record for each failure. A call that fails makes
its record before it returns, whatever else runs in between. What is answered in
front of `accept` makes none: over HTTP a body that does not decode and one that
axum finds too long, over gRPC a message that tonic finds too long
([`rejects_reported_iff`]).
-/
import Spanfall.Ingest.Accounting
import Spanfall.Ingest.Export
import Spanfall.Lib.Ring
import Spanfall.Lib.Runs
import Spanfall.Lib.Vec

set_option autoImplicit false

namespace Spanfall

open Lib.Ring Lib.Runs Lib.Vec

/-- A request that has been answered. -/
inductive Decision where
  /-- In front of `accept`. -/
  | refused (request : ExportRequest)
  /-- By its call of `accept`, which has made this record, if any. -/
  | handled (request : ExportTraceServiceRequest) (record : Option RejectRecord)

/-- The envelope failure of a request that has been decoded, if it is one. -/
def ExportTraceServiceRequest.failure (cfg : IngestConfig) (self : ExportTraceServiceRequest) :
    Option String :=
  match convert cfg.panic_injection self with
  | some (.ok _) => none
  | some (.error reason) => some (reason.debug cfg.printable)
  | none => some "panic during conversion"

/-- The envelope failure of a request as it arrives. A message that tonic cannot
decode is no `DecodeError`, which is a failure of `decode`. -/
def ExportRequest.failure (decoders : Decoders) (cfg : IngestConfig) :
    ExportRequest → Option String
  | http header body =>
    match decode decoders body (content_type_of header).1 with
    | .ok request => request.failure cfg
    | .error reason => some (reason.debug cfg.printable)
  | grpc message =>
    match message.decoded with
    | .ok request => request.failure cfg
    | .error _ => none

namespace Decision

def failure (decoders : Decoders) (cfg : IngestConfig) : Decision → Option String
  | refused request => request.failure decoders cfg
  | handled request _ => request.failure cfg

/-- The record that has been made for the request. -/
def record : Decision → Option RejectRecord
  | refused _ => none
  | handled _ record => record

/-- Whether the request came to `accept`. -/
def is_handled : Decision → Bool
  | refused _ => false
  | handled _ _ => true

/-- What came to `accept`. -/
def accepted : Decision → Option ExportTraceServiceRequest
  | refused _ => none
  | handled request _ => some request

/-- The answer given in front of `accept`. -/
def refusal (decoders : Decoders) (cfg : IngestConfig) : Decision → Option Refusal
  | refused request =>
    match request.receive decoders cfg.printable with
    | .ok _ => none
    | .error refusal => some refusal
  | handled _ _ => none

end Decision

/-- What a call under way knows about its request. -/
def AcceptCall.Pending (cfg : IngestConfig) (call : AcceptCall) : Prop :=
  match call.state with
  | .rejecting reason _ => call.request.failure cfg = some reason
  | .sending _ _ => call.request.failure cfg = none
  | .recording _ => call.request.failure cfg = none
  | _ => True

/-- The record that the action has made, if it made one, by the ring behind it. -/
def IngestAction.record (s' : Ingest) : IngestAction → Option RejectRecord
  | record_reject _ _ => s'.receiver.rejects.ring.getLast?
  | _ => none

namespace Exports

/-- The requests whose calls end between the two states. -/
def finished_by (record : Option RejectRecord) (s s' : Ingest) : List Decision :=
  (s.calls.zip s'.calls).filterMap fun p =>
    if p.1.state.finished = false ∧ p.2.state.finished = true then
      some (.handled p.1.request record)
    else none

/-- The decisions so far, after one more action. -/
def log_decided (decoders : Decoders) (cfg : IngestConfig) (log : List Decision) (s : Exports)
    (action : ExportAction) (s' : Exports) : List Decision :=
  match action with
  | .request request =>
    match request.receive decoders cfg.printable with
    | .ok _ => log
    | .error _ => log ++ [.refused request]
  | .proceed action => log ++ finished_by (action.record s'.ingest) s.ingest s'.ingest

/-- The requests decided along a run, in order. -/
def decided (decoders : Decoders) (cfg : IngestConfig) (actions : List ExportAction)
    (s : Exports) : List Decision :=
  ghost (step decoders cfg) (log_decided decoders cfg) actions s []

/-- The envelope failures among the decisions. -/
def failures (decoders : Decoders) (cfg : IngestConfig) (log : List Decision) : List Decision :=
  log.filter fun d => (d.failure decoders cfg).isSome

/-- What the ring holds while the system runs: the end of the failures that came
to `accept`. -/
structure Recorded (decoders : Decoders) (cfg : IngestConfig) (log : List Decision)
    (s : Ingest) : Prop where
  pending : ∀ call ∈ s.calls, call.Pending cfg
  ring : s.receiver.rejects.ring.map (fun record => (some record, some record.reason))
    = (((failures decoders cfg log).filter Decision.is_handled).map fun d =>
        (d.record, d.failure decoders cfg)).rtake REJECT_RING_CAPACITY
  recorded : ∀ request record, .handled request record ∈ log →
    (request.failure cfg).isSome → record.isSome

section Step

variable {decoders : Decoders} {cfg : IngestConfig} {log : List Decision} {s s' : Ingest}
  {record : Option RejectRecord}

/-- A push, seen through what is read off the records. -/
theorem push_map {β : Type*} (f : RejectRecord → β) (rejects : RejectLog) (reason : String)
    (now : UInt64) :
    (rejects.push reason now).ring.map f
      = push REJECT_RING_CAPACITY (rejects.ring.map f) (f ⟨reason, now⟩) := by
  unfold RejectLog.push push
  rw [List.map_append, List.length_map]
  by_cases hfull : rejects.ring.length = REJECT_RING_CAPACITY
  · rw [if_pos hfull, if_pos hfull, List.map_drop]
    rfl
  · rw [if_neg hfull, if_neg hfull]
    rfl

/-- A call that moves ends, or it does not. -/
theorem finished_by_move {i : ℕ} {call : AcceptCall} {state : AcceptState}
    (hcall : s.calls[i]? = some call) (hcalls : s'.calls = s.calls.set i { call with state })
    (hopen : call.state.finished = false) :
    finished_by record s s'
      = if state.finished = true then [.handled call.request record] else [] := by
  have hsame : ∀ c : AcceptCall, (if c.state.finished = false ∧ c.state.finished = true
      then some (Decision.handled c.request record) else none) = none := by
    intro c
    rw [if_neg]
    rintro ⟨hfalse, htrue⟩
    rw [hfalse] at htrue
    cases htrue
  rw [finished_by, hcalls, filterMap_zip_set hsame hcall]
  dsimp only
  rw [hopen]
  by_cases hfinished : state.finished = true
  · rw [if_pos ⟨rfl, hfinished⟩, if_pos hfinished]
    rfl
  · rw [if_neg fun h => hfinished h.2, if_neg hfinished]
    rfl

theorem finished_by_same (hcalls : s'.calls = s.calls) : finished_by record s s' = [] := by
  rw [finished_by, hcalls]
  refine filterMap_zip_self fun c => ?_
  dsimp only
  rw [if_neg]
  rintro ⟨hfalse, htrue⟩
  rw [hfalse] at htrue
  cases htrue

/-- Decisions that are no failures are not seen by the ring. -/
theorem Recorded.log_handled (h : Recorded decoders cfg log s)
    {request : ExportTraceServiceRequest} (hnone : request.failure cfg = none) :
    Recorded decoders cfg (log ++ [.handled request record]) s where
  pending := h.pending
  ring := by
    have hnot : ((Decision.handled request record).failure decoders cfg).isSome = false := by
      rw [Decision.failure, hnone]
      rfl
    rw [failures, List.filter_append, List.filter_cons_of_neg (by simp [hnot]), List.filter_nil,
      List.append_nil]
    exact h.ring
  recorded request' record' hmem hfailure := by
    rcases List.mem_append.mp hmem with hmem | hmem
    · exact h.recorded request' record' hmem hfailure
    · cases List.mem_singleton.mp hmem
      rw [hnone] at hfailure
      cases hfailure

/-- A call that moves and records nothing. -/
theorem Recorded.move (h : Recorded decoders cfg log s) {i : ℕ} {call : AcceptCall}
    {state : AcceptState} (hcall : s.calls[i]? = some call)
    (hcalls : s'.calls = s.calls.set i { call with state })
    (hrejects : s'.receiver.rejects = s.receiver.rejects) (hopen : call.state.finished = false)
    (hpending : AcceptCall.Pending cfg { call with state })
    (hnone : state.finished = true → call.request.failure cfg = none) :
    Recorded decoders cfg (log ++ finished_by record s s') s' := by
  have hmoved : Recorded decoders cfg log s' := by
    refine ⟨fun c hc => ?_, by rw [hrejects]; exact h.ring, h.recorded⟩
    rw [hcalls] at hc
    rcases List.mem_or_eq_of_mem_set hc with hc | rfl
    · exact h.pending c hc
    · exact hpending
  rw [finished_by_move hcall hcalls hopen]
  by_cases hfinished : state.finished = true
  · rw [if_pos hfinished]
    exact hmoved.log_handled (hnone hfinished)
  · rw [if_neg hfinished, List.append_nil]
    exact hmoved

/-- **A call that fails** makes a record of the failure and ends. -/
theorem Recorded.reject (h : Recorded decoders cfg log s) {i : ℕ} {call : AcceptCall}
    {reason : String} {error : IngestError} {now : UInt64} (hcall : s.calls[i]? = some call)
    (hstate : call.state = .rejecting reason error)
    (hs' : s' = { s.move i call (.returned (.error error)) with
      receiver := { s.receiver with rejects := s.receiver.rejects.push reason now } }) :
    Recorded decoders cfg (log ++ finished_by s'.receiver.rejects.ring.getLast? s s') s' := by
  have hpending := h.pending call (List.mem_of_getElem? hcall)
  rw [AcceptCall.Pending, hstate] at hpending
  have hrecord : s'.receiver.rejects.ring.getLast? = some ⟨reason, now⟩ := by
    rw [hs']
    exact List.getLast?_concat
  have hfinished : finished_by (some ⟨reason, now⟩) s s'
      = [.handled call.request (some ⟨reason, now⟩)] := by
    rw [finished_by_move hcall (by rw [hs']; rfl) (by rw [hstate]; rfl)]
    exact if_pos rfl
  rw [hrecord, hfinished]
  refine ⟨fun c hc => ?_, ?_, fun request record hmem hfailure => ?_⟩
  · rw [hs'] at hc
    rcases List.mem_or_eq_of_mem_set hc with hc | rfl
    · exact h.pending c hc
    · trivial
  · -- the text that is pushed is the failure of the request
    have hfailure : (Decision.handled call.request (some ⟨reason, now⟩)).failure decoders cfg
        = some reason := hpending
    rw [hs', push_map, h.ring, push_rtake (by decide), failures, failures, List.filter_append,
      List.filter_append, List.map_append, List.filter_cons_of_pos (by simp [hfailure]),
      List.filter_nil, List.filter_cons_of_pos rfl, List.filter_nil, List.map_singleton, hfailure,
      Decision.record]
  · rcases List.mem_append.mp hmem with hmem | hmem
    · exact h.recorded request record hmem hfailure
    · cases List.mem_singleton.mp hmem
      rfl

/-- After `convert` a call knows its request's failure, or that it has none. -/
theorem converted_pending (cfg : IngestConfig) (call : AcceptCall) :
    AcceptCall.Pending cfg { call with state := call.converted cfg }
      ∧ (call.converted cfg).finished = false := by
  unfold AcceptCall.Pending AcceptCall.converted ExportTraceServiceRequest.failure
  dsimp only
  cases hc : convert cfg.panic_injection call.request with
  | none => exact ⟨rfl, rfl⟩
  | some result =>
    cases result with
    | ok batch => exact ⟨rfl, rfl⟩
    | error reason => exact ⟨rfl, rfl⟩

/-- **The step lemma**, for what the parties do between two requests. -/
theorem Recorded.proceed (h : Recorded decoders cfg log s) {action : IngestAction}
    (hs : s.step cfg action = some s')
    (haction : ∀ request transport, action ≠ .accept request transport) :
    Recorded decoders cfg (log ++ finished_by (action.record s') s s') s' := by
  -- a call that has got as far as sending has no failure
  have hsending : ∀ {i : ℕ} {call : AcceptCall} {batch : SpanBatch} {span_count : ℕ},
      s.calls[i]? = some call → call.state = .sending batch span_count →
      call.request.failure cfg = none := by
    intro i call batch span_count hcall hstate
    have hpending := h.pending call (List.mem_of_getElem? hcall)
    rwa [AcceptCall.Pending, hstate] at hpending
  -- an action of the writer: no call moves, and nothing is recorded
  have writer : ∀ {record : Option RejectRecord}, s'.calls = s.calls → s'.receiver = s.receiver →
      Recorded decoders cfg (log ++ finished_by record s s') s' := by
    intro record hcalls hreceiver
    rw [finished_by_same hcalls, List.append_nil]
    exact ⟨by rw [hcalls]; exact h.pending, by rw [hreceiver]; exact h.ring, h.recorded⟩
  cases Ingest.acts_of_step hs with
  | accept => exact absurd rfl (haction _ _)
  | convert hcall hstate =>
    obtain ⟨hnew, hopen⟩ := converted_pending cfg _
    refine h.move hcall rfl rfl (by rw [hstate]; rfl) hnew fun hfinished => ?_
    rw [hopen] at hfinished
    cases hfinished
  | record_reject hcall hstate => exact h.reject hcall hstate rfl
  | send hcall hstate =>
    have hnone := hsending hcall hstate
    exact h.move hcall rfl rfl (by rw [hstate]; rfl) hnone fun _ => hnone
  | send_closed hcall hstate =>
    exact h.move hcall rfl rfl (by rw [hstate]; rfl) trivial fun _ => hsending hcall hstate
  | timeout hcall hstate =>
    exact h.move hcall rfl rfl (by rw [hstate]; rfl) trivial fun _ => hsending hcall hstate
  | drop hcall hstate =>
    exact h.move hcall rfl rfl (by rw [hstate]; rfl) trivial fun _ => hsending hcall hstate
  | record_arrival hcall hstate =>
    have hnone := h.pending _ (List.mem_of_getElem? hcall)
    rw [AcceptCall.Pending, hstate] at hnone
    exact h.move hcall rfl rfl (by rw [hstate]; rfl) trivial fun _ => hnone
  | recv => exact writer rfl rfl
  | apply => exact writer rfl rfl
  | panic => exact writer rfl rfl
  | bump => exact writer rfl rfl
  | stop => exact writer rfl rfl

/-- A new call of `accept`. -/
theorem Recorded.accept (h : Recorded decoders cfg log s) {request : ExportTraceServiceRequest}
    {transport : Transport} (hs : s.step cfg (.accept request transport) = some s') :
    Recorded decoders cfg log s' := by
  cases Ingest.acts_of_step hs with
  | accept =>
    refine ⟨fun c hc => ?_, h.ring, h.recorded⟩
    rcases List.mem_append.mp hc with hc | hc
    · exact h.pending c hc
    · rw [List.mem_singleton.mp hc]
      trivial

/-- A request that is refused leaves the ring as it is, failure or not. -/
theorem Recorded.refused (h : Recorded decoders cfg log s) (request : ExportRequest) :
    Recorded decoders cfg (log ++ [.refused request]) s where
  pending := h.pending
  ring := by
    rw [failures, List.filter_append, List.filter_append]
    have hnone : (([Decision.refused request].filter fun d =>
        (d.failure decoders cfg).isSome).filter Decision.is_handled) = [] := by
      rw [List.filter_filter, List.filter_cons_of_neg (by simp [Decision.is_handled]),
        List.filter_nil]
    rw [hnone, List.append_nil]
    exact h.ring
  recorded request' record hmem hfailure := by
    rcases List.mem_append.mp hmem with hmem | hmem
    · exact h.recorded request' record hmem hfailure
    · cases List.mem_singleton.mp hmem

/-- **The step lemma.** -/
theorem Recorded.step {s s' : Exports} (h : Recorded decoders cfg log s.ingest)
    {action : ExportAction} (hs : s.step decoders cfg action = some s') :
    Recorded decoders cfg (log_decided decoders cfg log s action s') s'.ingest := by
  cases action with
  | request request =>
    unfold log_decided
    dsimp only
    obtain ⟨decoded, transport, hreceive, hingest, _⟩ | ⟨refusal, hreceive, rfl⟩ :=
      request_step hs
    · rw [hreceive]
      exact h.accept hingest
    · rw [hreceive]
      exact h.refused request
  | proceed action =>
    obtain ⟨hingest, haction, _⟩ := proceed_step hs
    exact h.proceed hingest haction

end Step

/-- The requests of the calls that have ended. -/
def ended (s : Ingest) : List ExportTraceServiceRequest :=
  (s.calls.filter fun call => call.state.finished).map AcceptCall.request

/-- A new call has not ended. -/
theorem ended_of_accept {cfg : IngestConfig} {s s' : Ingest} {request : ExportTraceServiceRequest}
    {transport : Transport} (hs : s.step cfg (.accept request transport) = some s') :
    ended s' = ended s := by
  cases Ingest.acts_of_step hs with
  | accept =>
    rw [ended, ended, List.filter_append, List.filter_cons_of_neg (by simp [AcceptState.finished]),
      List.filter_nil, List.append_nil]

/-- What an action ends is decided by it. -/
theorem ended_of_proceed {cfg : IngestConfig} {s s' : Ingest} {action : IngestAction}
    {record : Option RejectRecord} (hs : s.step cfg action = some s')
    (haction : ∀ request transport, action ≠ .accept request transport) :
    (ended s').Perm (ended s ++ (finished_by record s s').filterMap Decision.accepted) := by
  -- a call that moves, and a state whose calls do not
  have move : ∀ {i : ℕ} {call : AcceptCall} (state : AcceptState), s.calls[i]? = some call →
      call.state.finished = false → s'.calls = s.calls.set i { call with state } →
      (ended s').Perm (ended s ++ (finished_by record s s').filterMap Decision.accepted) := by
    intro i call state hcall hopen hcalls
    rw [finished_by_move hcall hcalls hopen, ended, ended, hcalls]
    by_cases hfinished : state.finished = true
    · rw [if_pos hfinished]
      refine ((filter_set_perm hcall hopen hfinished).map _).trans ?_
      rw [List.map_cons]
      exact (List.perm_append_singleton _ _).symm
    · rw [if_neg hfinished, List.filterMap_nil, List.append_nil,
        filter_set_of_neg hcall hopen (by simpa using hfinished)]
  have same : s'.calls = s.calls →
      (ended s').Perm (ended s ++ (finished_by record s s').filterMap Decision.accepted) := by
    intro hcalls
    rw [finished_by_same hcalls, List.filterMap_nil, List.append_nil, ended, ended, hcalls]
  cases Ingest.acts_of_step hs with
  | accept => exact absurd rfl (haction _ _)
  | convert hcall hstate => exact move _ hcall (by rw [hstate]; rfl) rfl
  | record_reject hcall hstate => exact move _ hcall (by rw [hstate]; rfl) rfl
  | send hcall hstate => exact move _ hcall (by rw [hstate]; rfl) rfl
  | send_closed hcall hstate => exact move _ hcall (by rw [hstate]; rfl) rfl
  | timeout hcall hstate => exact move _ hcall (by rw [hstate]; rfl) rfl
  | drop hcall hstate => exact move _ hcall (by rw [hstate]; rfl) rfl
  | record_arrival hcall hstate => exact move _ hcall (by rw [hstate]; rfl) rfl
  | recv => exact same rfl
  | apply => exact same rfl
  | panic => exact same rfl
  | bump => exact same rfl
  | stop => exact same rfl

/-- What the calls decide was not refused. -/
theorem refusal_of_finished {decoders : Decoders} {cfg : IngestConfig}
    {record : Option RejectRecord} {s s' : Ingest} :
    (finished_by record s s').filterMap (Decision.refusal decoders cfg) = [] := by
  rw [List.filterMap_eq_nil_iff]
  intro d hd
  obtain ⟨p, _, hp⟩ := List.mem_filterMap.mp hd
  by_cases hends : p.1.state.finished = false ∧ p.2.state.finished = true
  · rw [if_pos hends] at hp
    rw [← Option.some.inj hp]
    rfl
  · rw [if_neg hends] at hp
    cases hp

/-- The decisions are the calls that have ended and the requests refused. -/
structure Decided (decoders : Decoders) (cfg : IngestConfig) (log : List Decision)
    (s : Exports) : Prop where
  handled : (log.filterMap Decision.accepted).Perm (ended s.ingest)
  refused : log.filterMap (Decision.refusal decoders cfg) = s.refused

theorem Decided.step {decoders : Decoders} {cfg : IngestConfig} {log : List Decision}
    {s s' : Exports} (h : Decided decoders cfg log s) {action : ExportAction}
    (hs : s.step decoders cfg action = some s') :
    Decided decoders cfg (log_decided decoders cfg log s action s') s' := by
  cases action with
  | request request =>
    unfold log_decided
    dsimp only
    obtain ⟨decoded, transport, hreceive, hingest, hrefused⟩ | ⟨refusal, hreceive, rfl⟩ :=
      request_step hs
    · rw [hreceive]
      exact ⟨by rw [ended_of_accept hingest]; exact h.handled, by rw [hrefused]; exact h.refused⟩
    · rw [hreceive]
      constructor
      · rw [List.filterMap_append, List.filterMap_cons_none rfl, List.filterMap_nil,
          List.append_nil]
        exact h.handled
      · have hanswer : (Decision.refused request).refusal decoders cfg = some refusal := by
          rw [Decision.refusal, hreceive]
        rw [List.filterMap_append, h.refused, List.filterMap_cons_some hanswer, List.filterMap_nil]
  | proceed action =>
    obtain ⟨hingest, haction, hrefused⟩ := proceed_step hs
    unfold log_decided
    constructor
    · rw [List.filterMap_append]
      exact (h.handled.append_right _).trans (ended_of_proceed hingest haction).symm
    · rw [List.filterMap_append, refusal_of_finished, List.append_nil, hrefused]
      exact h.refused

/-- **Every request that has been answered is decided once**, and no other. -/
theorem decided_once {decoders : Decoders} {cfg : IngestConfig} {store : Store}
    {actions : List ExportAction} {s : Exports}
    (h : exec (step decoders cfg) actions (start store) = some s) :
    Decided decoders cfg (decided decoders cfg actions (start store)) s := by
  refine exec_induction (P := fun actions s =>
    Decided decoders cfg (decided decoders cfg actions (start store)) s)
    ⟨List.Perm.refl _, rfl⟩ ?_ h
  intro actions s action s' hrun ih hs
  rw [decided, ghost_snoc hrun hs]
  exact ih.step hs

/-! ## What is missing -/

/-- Two bodies and what the protobuf decoder makes of them: an empty body is an
empty request, and three bytes of ones are no varint. -/
def two_bodies : Decoders where
  protobuf bytes :=
    if bytes = [] then .ok { resource_spans := [] }
    else .error "failed to decode Protobuf message: invalid varint"
  json _ := .error "EOF while parsing a value at line 1 column 0"

end Exports

end Spanfall
