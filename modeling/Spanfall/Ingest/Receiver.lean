/-
`Receiver.lean` -- `src/ingest/receiver_state.rs`: the ring of rejects and the
arrival counts.

The counts are natural numbers: they are `u64`s that only ever count spans that
were sent.
-/
import Mathlib.Data.List.Basic
import Spanfall.Store.Types

set_option autoImplicit false

namespace Spanfall

/-- `REJECT_RING_CAPACITY`. -/
def REJECT_RING_CAPACITY : ℕ := 100

/-- `RejectRecord`. -/
structure RejectRecord where
  reason : String
  at_unix_nano : UInt64
  deriving DecidableEq

/-- `Transport`. -/
inductive Transport where
  | grpc_v4317
  | http_protobuf_v4318
  | http_json_v4318
  deriving DecidableEq

/-- `ArrivalCounts`. -/
structure ArrivalCounts where
  grpc_v4317 : ℕ
  http_protobuf_v4318 : ℕ
  http_json_v4318 : ℕ
  deriving DecidableEq

namespace ArrivalCounts

/-- `ArrivalCounts::default`. -/
def default : ArrivalCounts := ⟨0, 0, 0⟩

/-- `ArrivalCounts::record`. -/
def record (self : ArrivalCounts) (transport : Transport) (span_count : ℕ) : ArrivalCounts :=
  match transport with
  | .grpc_v4317 => { self with grpc_v4317 := self.grpc_v4317 + span_count }
  | .http_protobuf_v4318 =>
    { self with http_protobuf_v4318 := self.http_protobuf_v4318 + span_count }
  | .http_json_v4318 => { self with http_json_v4318 := self.http_json_v4318 + span_count }

/-- The count of one transport. -/
def of (self : ArrivalCounts) : Transport → ℕ
  | .grpc_v4317 => self.grpc_v4317
  | .http_protobuf_v4318 => self.http_protobuf_v4318
  | .http_json_v4318 => self.http_json_v4318

theorem of_record (self : ArrivalCounts) (t t' : Transport) (n : ℕ) :
    (self.record t n).of t' = self.of t' + if t = t' then n else 0 := by
  cases t <;> cases t' <;> rfl

end ArrivalCounts

/-- `RejectLog`, the oldest record first. -/
structure RejectLog where
  ring : List RejectRecord
  deriving DecidableEq

/-- `RejectLog::push`. -/
def RejectLog.push (self : RejectLog) (reason : String) (at_unix_nano : UInt64) : RejectLog :=
  let ring := if self.ring.length = REJECT_RING_CAPACITY then self.ring.drop 1 else self.ring
  { ring := ring ++ [{ reason, at_unix_nano }] }

/-- `ReceiverState`. -/
structure ReceiverState where
  rejects : RejectLog
  arrivals : ArrivalCounts
  deriving DecidableEq

/-- `ReceiverState::default`. -/
def ReceiverState.default : ReceiverState :=
  { rejects := { ring := [] }, arrivals := ArrivalCounts.default }

end Spanfall
