/-
`Accept.lean` -- `src/ingest/handler.rs` beside `src/store/writer.rs`: calls of
`accept`, the channel and the writer, as one system.

Every call of `accept` runs on its own and meets the others only in the channel
and under the receiver's lock; the writer takes batches out of the channel and
applies them under the store's lock. One action is what one party does without
letting the others in: between two actions anything may happen. An action that
is not enabled is `none`.

The channel is what `tokio` documents: a bounded queue. A send that completes
enqueues its batch once, at the end. One that is cancelled, by the timeout or
because its connection went away, and one that finds the receiving half gone
enqueue nothing.
-/
import Spanfall.Ingest.Convert
import Spanfall.Ingest.Receiver

set_option autoImplicit false

namespace Spanfall

/-- `IngestError`. -/
inductive IngestError where
  | reject (reason : RejectReason)
  | conversion_panicked
  | backpressure
  | writer_gone
  deriving DecidableEq

/-- `Debug` of a text. `printable` stands for the Unicode tables of the standard
library: it holds of the characters that are printable and extend no grapheme. -/
def str_debug (printable : Char → Bool) (s : String) : String :=
  let escape : Char → List Char
    | '"' => ['\\', '"']
    | '\\' => ['\\', '\\']
    | '\n' => ['\\', 'n']
    | '\r' => ['\\', 'r']
    | '\t' => ['\\', 't']
    | '\x00' => ['\\', '0']
    | c =>
      if printable c then [c]
      else "\\u\x7b".toList ++ Nat.toDigits 16 c.toNat ++ "\x7d".toList
  String.ofList ('"' :: s.toList.flatMap escape ++ ['"'])

/-- `Debug` of a reason. -/
def RejectReason.debug (printable : Char → Bool) : RejectReason → String
  | empty_payload => "EmptyPayload"
  | decode_error message => "DecodeError(" ++ str_debug printable message ++ ")"

/-! ## The parties -/

/-- Where a call of `accept` is. -/
inductive AcceptState where
  /-- Before `convert`. -/
  | converting
  /-- Before `record_reject`, with what it will record and return. -/
  | rejecting (reason : String) (error : IngestError)
  /-- Waiting in `send`. -/
  | sending (batch : SpanBatch) (span_count : ℕ)
  /-- After `send`, before the arrival is recorded. -/
  | recording (span_count : ℕ)
  | returned (result : Except IngestError Unit)
  /-- The future was dropped while it waited. -/
  | dropped
  deriving DecidableEq

/-- One call of `accept`. -/
structure AcceptCall where
  request : ExportTraceServiceRequest
  transport : Transport
  state : AcceptState
  deriving DecidableEq

/-- Where the writer's `run` is. -/
inductive WriterState where
  /-- In `recv`. -/
  | waiting
  /-- It has a batch and not yet the store's lock. -/
  | received (batch : SpanBatch)
  /-- It has released the lock and not yet bumped the sequence. -/
  | applied
  /-- `recv` returned `None`: every sender is gone. -/
  | ended
  | panicked
  deriving DecidableEq

/-- The constants of a run. -/
structure IngestConfig where
  capacity : ℕ
  panic_injection : Bool
  /-- What `Debug` writes as it is. -/
  printable : Char → Bool

/-- The whole system. -/
structure Ingest where
  calls : List AcceptCall
  queue : List SpanBatch
  receiver : ReceiverState
  store : Store
  writer : WriterState
  seq : ℕ

/-- What the parties do. -/
inductive IngestAction where
  | accept (request : ExportTraceServiceRequest) (transport : Transport)
  | convert (call : ℕ)
  | record_reject (call : ℕ) (now_unix_nano : UInt64)
  | send (call : ℕ)
  | send_closed (call : ℕ)
  | timeout (call : ℕ)
  | drop (call : ℕ)
  | record_arrival (call : ℕ)
  | recv
  | apply (now_unix_nano : UInt64) (order : TraceOrder)
  | bump
  | stop

/-- The receiving half of the channel lives as long as the writer. -/
def WriterState.is_open : WriterState → Bool
  | waiting => true
  | received _ => true
  | applied => true
  | ended => false
  | panicked => false

/-- The call has returned, or its future is gone. -/
def AcceptState.finished : AcceptState → Bool
  | converting => false
  | rejecting _ _ => false
  | sending _ _ => false
  | recording _ => false
  | returned _ => true
  | dropped => true

/-- What `accept` does with the outcome of `convert`. -/
def AcceptCall.converted (cfg : IngestConfig) (call : AcceptCall) : AcceptState :=
  match Spanfall.convert cfg.panic_injection call.request with
  | some (.ok batch) => .sending batch batch.spans.length
  | some (.error reason) => .rejecting (reason.debug cfg.printable) (.reject reason)
  | none => .rejecting "panic during conversion" .conversion_panicked

namespace Ingest

/-- The system before the first call. -/
def start (store : Store) : Ingest where
  calls := []
  queue := []
  receiver := ReceiverState.default
  store := store
  writer := .waiting
  seq := 0

/-- A call moves to another state. -/
def move (self : Ingest) (i : ℕ) (call : AcceptCall) (state : AcceptState) : Ingest :=
  { self with calls := self.calls.set i { call with state } }

/-- One action. What a panic leaves in the store is not modelled: the writer is
gone with its half of the channel, and nothing is applied any more. -/
def step (cfg : IngestConfig) (self : Ingest) : IngestAction → Option Ingest
  | .accept request transport =>
    if self.writer = .ended then none
    else some { self with
      calls := self.calls ++ [{ request, transport, state := .converting }] }
  | .convert i => do
    let call ← self.calls[i]?
    match call.state with
    | .converting => some (self.move i call (call.converted cfg))
    | _ => none
  | .record_reject i now => do
    let call ← self.calls[i]?
    match call.state with
    | .rejecting reason error =>
      let receiver := { self.receiver with rejects := self.receiver.rejects.push reason now }
      some { self.move i call (.returned (.error error)) with receiver }
    | _ => none
  | .send i => do
    let call ← self.calls[i]?
    match call.state with
    | .sending batch span_count =>
      if self.writer.is_open ∧ self.queue.length < cfg.capacity then
        some { self.move i call (.recording span_count) with queue := self.queue ++ [batch] }
      else none
    | _ => none
  | .send_closed i => do
    let call ← self.calls[i]?
    match call.state with
    | .sending _ _ =>
      if self.writer.is_open then none
      else some (self.move i call (.returned (.error .writer_gone)))
    | _ => none
  | .timeout i => do
    let call ← self.calls[i]?
    match call.state with
    | .sending _ _ => some (self.move i call (.returned (.error .backpressure)))
    | _ => none
  | .drop i => do
    let call ← self.calls[i]?
    match call.state with
    | .sending _ _ => some (self.move i call .dropped)
    | _ => none
  | .record_arrival i => do
    let call ← self.calls[i]?
    match call.state with
    | .recording span_count =>
      let receiver := { self.receiver with
        arrivals := self.receiver.arrivals.record call.transport span_count }
      some { self.move i call (.returned (.ok ())) with receiver }
    | _ => none
  | .recv =>
    match self.writer, self.queue with
    | .waiting, batch :: queue => some { self with writer := .received batch, queue }
    | _, _ => none
  | .apply now order =>
    match self.writer with
    | .received batch =>
      match self.store.apply_batch batch now order with
      | some store => some { self with store, writer := .applied }
      | none => some { self with writer := .panicked, queue := [] }
    | _ => none
  | .bump =>
    match self.writer with
    | .applied => some { self with writer := .waiting, seq := self.seq + 1 }
    | _ => none
  | .stop =>
    match self.writer, self.queue with
    | .waiting, [] =>
      if self.calls.all (·.state.finished) then some { self with writer := .ended } else none
    | _, _ => none

/-! ## The actions one by one -/

/-- What each action needs and what it does. -/
inductive Acts (cfg : IngestConfig) (s : Ingest) : IngestAction → Ingest → Prop
  | accept {request : ExportTraceServiceRequest} {transport : Transport}
      (hsenders : s.writer ≠ .ended) :
      Acts cfg s (.accept request transport)
        { s with calls := s.calls ++ [{ request, transport, state := .converting }] }
  | convert {i : ℕ} {call : AcceptCall} (hcall : s.calls[i]? = some call)
      (hstate : call.state = .converting) :
      Acts cfg s (.convert i) (s.move i call (call.converted cfg))
  | record_reject {i : ℕ} {now : UInt64} {call : AcceptCall} {reason : String}
      {error : IngestError} (hcall : s.calls[i]? = some call)
      (hstate : call.state = .rejecting reason error) :
      Acts cfg s (.record_reject i now)
        { s.move i call (.returned (.error error)) with
          receiver := { s.receiver with rejects := s.receiver.rejects.push reason now } }
  | send {i : ℕ} {call : AcceptCall} {batch : SpanBatch} {span_count : ℕ}
      (hcall : s.calls[i]? = some call) (hstate : call.state = .sending batch span_count)
      (hopen : s.writer.is_open = true) (hroom : s.queue.length < cfg.capacity) :
      Acts cfg s (.send i)
        { s.move i call (.recording span_count) with queue := s.queue ++ [batch] }
  | send_closed {i : ℕ} {call : AcceptCall} {batch : SpanBatch} {span_count : ℕ}
      (hcall : s.calls[i]? = some call) (hstate : call.state = .sending batch span_count)
      (hclosed : s.writer.is_open = false) :
      Acts cfg s (.send_closed i) (s.move i call (.returned (.error .writer_gone)))
  | timeout {i : ℕ} {call : AcceptCall} {batch : SpanBatch} {span_count : ℕ}
      (hcall : s.calls[i]? = some call) (hstate : call.state = .sending batch span_count) :
      Acts cfg s (.timeout i) (s.move i call (.returned (.error .backpressure)))
  | drop {i : ℕ} {call : AcceptCall} {batch : SpanBatch} {span_count : ℕ}
      (hcall : s.calls[i]? = some call) (hstate : call.state = .sending batch span_count) :
      Acts cfg s (.drop i) (s.move i call .dropped)
  | record_arrival {i : ℕ} {call : AcceptCall} {span_count : ℕ}
      (hcall : s.calls[i]? = some call) (hstate : call.state = .recording span_count) :
      Acts cfg s (.record_arrival i)
        { s.move i call (.returned (.ok ())) with
          receiver := { s.receiver with
            arrivals := s.receiver.arrivals.record call.transport span_count } }
  | recv {batch : SpanBatch} {queue : List SpanBatch} (hwriter : s.writer = .waiting)
      (hqueue : s.queue = batch :: queue) :
      Acts cfg s .recv { s with writer := .received batch, queue }
  | apply {now : UInt64} {order : TraceOrder} {batch : SpanBatch} {store : Store}
      (hwriter : s.writer = .received batch)
      (hstore : s.store.apply_batch batch now order = some store) :
      Acts cfg s (.apply now order) { s with store, writer := .applied }
  | panic {now : UInt64} {order : TraceOrder} {batch : SpanBatch}
      (hwriter : s.writer = .received batch)
      (hstore : s.store.apply_batch batch now order = none) :
      Acts cfg s (.apply now order) { s with writer := .panicked, queue := [] }
  | bump (hwriter : s.writer = .applied) :
      Acts cfg s .bump { s with writer := .waiting, seq := s.seq + 1 }
  | stop (hwriter : s.writer = .waiting) (hqueue : s.queue = [])
      (hcalls : s.calls.all (·.state.finished) = true) :
      Acts cfg s .stop { s with writer := .ended }

/-- A step of a call: the call is there. -/
theorem call_step {β : Type} {s : Ingest} {i : ℕ} {f : AcceptCall → Option β} {b : β}
    (h : (do let call ← s.calls[i]?; f call) = some b) :
    ∃ call, s.calls[i]? = some call ∧ f call = some b :=
  Option.bind_eq_some_iff.mp h

theorem acts_of_step {cfg : IngestConfig} {s s' : Ingest} {action : IngestAction}
    (h : s.step cfg action = some s') : Acts cfg s action s' := by
  cases action with
  | accept request transport =>
    rw [step] at h
    by_cases hw : s.writer = .ended
    · rw [if_pos hw] at h
      cases h
    · rw [if_neg hw, Option.some.injEq] at h
      exact h ▸ .accept hw
  | convert i =>
    obtain ⟨call, hcall, h⟩ := call_step h
    cases hstate : call.state with
    | converting =>
      rw [hstate] at h
      exact Option.some.inj h ▸ .convert hcall hstate
    | _ => rw [hstate] at h; cases h
  | record_reject i now =>
    obtain ⟨call, hcall, h⟩ := call_step h
    cases hstate : call.state with
    | rejecting reason error =>
      rw [hstate] at h
      exact Option.some.inj h ▸ .record_reject hcall hstate
    | _ => rw [hstate] at h; cases h
  | send i =>
    obtain ⟨call, hcall, h⟩ := call_step h
    cases hstate : call.state with
    | sending batch span_count =>
      rw [hstate] at h
      dsimp only at h
      by_cases hroom : s.writer.is_open = true ∧ s.queue.length < cfg.capacity
      · rw [if_pos hroom] at h
        exact Option.some.inj h ▸ .send hcall hstate hroom.1 hroom.2
      · rw [if_neg hroom] at h
        cases h
    | _ => rw [hstate] at h; cases h
  | send_closed i =>
    obtain ⟨call, hcall, h⟩ := call_step h
    cases hstate : call.state with
    | sending batch span_count =>
      rw [hstate] at h
      dsimp only at h
      by_cases hopen : s.writer.is_open = true
      · rw [if_pos hopen] at h
        cases h
      · rw [if_neg hopen] at h
        exact Option.some.inj h ▸ .send_closed hcall hstate (by simpa using hopen)
    | _ => rw [hstate] at h; cases h
  | timeout i =>
    obtain ⟨call, hcall, h⟩ := call_step h
    cases hstate : call.state with
    | sending batch span_count =>
      rw [hstate] at h
      exact Option.some.inj h ▸ .timeout hcall hstate
    | _ => rw [hstate] at h; cases h
  | drop i =>
    obtain ⟨call, hcall, h⟩ := call_step h
    cases hstate : call.state with
    | sending batch span_count =>
      rw [hstate] at h
      exact Option.some.inj h ▸ .drop hcall hstate
    | _ => rw [hstate] at h; cases h
  | record_arrival i =>
    obtain ⟨call, hcall, h⟩ := call_step h
    cases hstate : call.state with
    | recording span_count =>
      rw [hstate] at h
      exact Option.some.inj h ▸ .record_arrival hcall hstate
    | _ => rw [hstate] at h; cases h
  | recv =>
    rw [step] at h
    cases hwriter : s.writer with
    | waiting =>
      cases hqueue : s.queue with
      | nil => rw [hwriter, hqueue] at h; cases h
      | cons batch queue =>
        rw [hwriter, hqueue] at h
        exact Option.some.inj h ▸ .recv hwriter hqueue
    | _ => rw [hwriter] at h; cases h
  | apply now order =>
    rw [step] at h
    cases hwriter : s.writer with
    | received batch =>
      rw [hwriter] at h
      dsimp only at h
      cases hstore : s.store.apply_batch batch now order with
      | some store =>
        rw [hstore] at h
        exact Option.some.inj h ▸ .apply hwriter hstore
      | none =>
        rw [hstore] at h
        exact Option.some.inj h ▸ .panic hwriter hstore
    | _ => rw [hwriter] at h; cases h
  | bump =>
    rw [step] at h
    cases hwriter : s.writer with
    | applied =>
      rw [hwriter] at h
      exact Option.some.inj h ▸ .bump hwriter
    | _ => rw [hwriter] at h; cases h
  | stop =>
    rw [step] at h
    cases hwriter : s.writer with
    | waiting =>
      cases hqueue : s.queue with
      | nil =>
        rw [hwriter, hqueue] at h
        dsimp only at h
        by_cases hcalls : s.calls.all (·.state.finished) = true
        · rw [if_pos hcalls] at h
          have hstop : Acts cfg s .stop { s with writer := .ended } :=
            .stop hwriter hqueue hcalls
          rw [hqueue] at hstop
          exact Option.some.inj h ▸ hstop
        · rw [if_neg hcalls] at h
          cases h
      | cons batch queue => rw [hwriter, hqueue] at h; cases h
    | _ => rw [hwriter] at h; cases h

end Ingest

end Spanfall
