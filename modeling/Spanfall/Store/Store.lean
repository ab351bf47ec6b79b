/-
`Store.lean` -- `src/store/mod.rs`: all resident traces under one memory cap.

`none` is a panic, as in `Trace.lean`. The order in which the sweep walks the
map of traces is an argument, and a theorem about the sweep is about every
order. Byte totals are natural numbers: a `usize` sum of lengths that are all in
memory at once does not overflow. The `u32` generations do wrap.
-/
import Mathlib.Data.Nat.Digits.Defs
import Spanfall.Store.Trace

set_option autoImplicit false

namespace Spanfall

open Lib.HashMap

/-- `GLOBAL_INTERNER_CAP`. -/
def GLOBAL_INTERNER_CAP : ℕ := 100000

/-- `APPROX_SPAN_FIXED_BYTES`. -/
def APPROX_SPAN_FIXED_BYTES : ℕ := 64

/-- `APPROX_ATTR_FIXED_BYTES`. -/
def APPROX_ATTR_FIXED_BYTES : ℕ := 24

/-- `Counters` of `src/receiver.rs`. -/
structure Counters where
  duplicate_span : ℕ
  attribute_key_cap_hit : ℕ
  late_span_after_eviction : ℕ
  evicted_traces : ℕ
  malformed_span : ℕ
  deriving DecidableEq

/-- `Counters::default`. -/
def Counters.default : Counters := ⟨0, 0, 0, 0, 0⟩

/-- `Store`. -/
structure Store where
  traces : FxHashMap TraceId Trace
  key_interner : Interner
  service_interner : Interner
  max_memory_bytes : ℕ
  evicted_generations : FxHashMap TraceId UInt32
  counters : Counters

structure StoreInsertOutcome where
  local_idx : ℕ
  is_duplicate : Bool
  resurrected : Bool
  deriving DecidableEq

/-- The order the map of traces is walked in. -/
abbrev TraceOrder : Type := IterOrder TraceId Trace

/-- An id as the number its bytes spell, the first byte the least. -/
def TraceId.rank (id : TraceId) : ℕ := Nat.ofDigits 256 (id.bytes.toList.map UInt8.toNat)

theorem TraceId.rank_injective : Function.Injective TraceId.rank := by
  intro a b h
  have hlen : ∀ id : TraceId, (id.bytes.toList.map UInt8.toNat).length = 16 := by simp
  have hlt : ∀ id : TraceId, ∀ d ∈ id.bytes.toList.map UInt8.toNat, d < 256 := fun id d hd => by
    obtain ⟨u, _, rfl⟩ := List.mem_map.mp hd
    exact u.toNat_lt
  have hdigits := Nat.ofDigits_inj_of_len_eq (by decide) ((hlen a).trans (hlen b).symm)
    (hlt a) (hlt b) h
  have hbytes := List.map_injective_iff.mpr (fun _ _ => UInt8.toNat_inj.mp) hdigits
  exact congrArg TraceId.mk (Vector.toList_inj.mp hbytes)

/-- One order to run the model with. -/
def TraceOrder.by_id : TraceOrder := IterOrder.ofRank TraceId.rank TraceId.rank_injective

namespace Store

/-- `Store::new`. -/
def new (max_memory_bytes : ℕ) : Store where
  traces := ∅
  key_interner := Interner.new GLOBAL_INTERNER_CAP
  service_interner := Interner.new GLOBAL_INTERNER_CAP
  max_memory_bytes := max_memory_bytes
  evicted_generations := ∅
  counters := Counters.default

/-- `Store::trace_count`. -/
def trace_count (self : Store) : ℕ := len self.traces

/-- `Store::trace`. -/
def trace (self : Store) (trace_id : TraceId) : Option Trace := self.traces.lookup trace_id

/-- `Store::service_name`. -/
def service_name (self : Store) (id : UInt32) : Option String := self.service_interner.get id

/-- `Store::attribute_key`. -/
def attribute_key (self : Store) (id : UInt32) : Option String := self.key_interner.get id

/-- `Store::attribute_key_id`: here `none` is the source's own `None`. -/
def attribute_key_id (self : Store) (key : String) : Option UInt32 := self.key_interner.lookup key

/-! ## Insertion -/

/-- `and_then(|name| self.service_interner.intern(&name))`. -/
def intern_service (service_interner : Interner) : Option String → Option UInt32 × Interner
  | none => (none, service_interner)
  | some name => service_interner.intern name

/-- The trace a span goes to: the resident one, or a new one that takes the
next generation out of the table of evicted ones. -/
def entry (self : Store) (trace_id : TraceId) (now_unix_nano : UInt64) :
    Trace × FxHashMap TraceId UInt32 :=
  match self.traces.lookup trace_id with
  | some t => (t, self.evicted_generations)
  | none =>
    let generation := match self.evicted_generations.lookup trace_id with
      | some g => g + 1
      | none => 0
    ({ Trace.new trace_id now_unix_nano with generation },
      self.evicted_generations.erase trace_id)

/-- `Store::insert_span_no_evict`. The service name is taken out of the span
before it is passed on. -/
def insert_span_no_evict (self : Store) (trace_id : TraceId) (span : NewSpan)
    (now_unix_nano : UInt64) : Option (Store × StoreInsertOutcome) := do
  let (service_name_id, service_interner) :=
    intern_service self.service_interner span.service_name
  let resurrected := (self.traces.lookup trace_id).isNone
    && (self.evicted_generations.lookup trace_id).isSome
  let (trace, evicted_generations) := self.entry trace_id now_unix_nano
  let (trace, key_interner, out) ←
    trace.insert { span with service_name := none } service_name_id self.key_interner now_unix_nano
  let counters := { self.counters with
    duplicate_span := self.counters.duplicate_span + out.is_duplicate.toNat
    late_span_after_eviction := self.counters.late_span_after_eviction + resurrected.toNat
    attribute_key_cap_hit := key_interner.cap_hit_count }
  return ({ self with
      traces := self.traces.insert trace_id trace
      key_interner, service_interner, evicted_generations, counters },
    { local_idx := out.local_idx, is_duplicate := out.is_duplicate, resurrected })

/-! ## Eviction -/

/-- `Store::approx_bytes`. -/
def approx_bytes (trace : Trace) : Option ℕ := do
  let charges ← (List.range trace.span_count).mapM fun idx => do
    let name ← trace.name idx
    let attributes ← trace.attributes idx
    return APPROX_SPAN_FIXED_BYTES + name.utf8ByteSize
      + attributes.length * APPROX_ATTR_FIXED_BYTES
  return charges.sum

/-- `Store::total_approx_bytes`. -/
def total_approx_bytes (self : Store) (order : TraceOrder) : Option ℕ := do
  let charges ← (order.iter self.traces).mapM fun e => approx_bytes e.2
  return charges.sum

/-- `min_by_key` on the last activity: the first of the oldest traces. -/
def oldest (self : Store) (order : TraceOrder) : Option TraceId :=
  ((order.iter self.traces).argmin fun e => e.2.last_activity_unix_nano.toNat).map Sigma.fst

/-- The body of the `while`: the oldest trace is removed and its generation
remembered. -/
def evict (self : Store) (id : TraceId) : Store :=
  match self.traces.lookup id with
  | some t =>
    { self with
      traces := self.traces.erase id
      evicted_generations := self.evicted_generations.insert id t.generation
      counters := { self.counters with evicted_traces := self.counters.evicted_traces + 1 } }
  | none => self

/-- The `while` of `evict_over_budget`, given as many turns as there are
traces. -/
def evict_loop (order : TraceOrder) : ℕ → Store → Option Store
  | 0, self => some self
  | turns + 1, self => do
    let total ← self.total_approx_bytes order
    if total > self.max_memory_bytes ∧ self.trace_count > 1 then
      match self.oldest order with
      | none => return self
      | some id => evict_loop order turns (self.evict id)
    else return self

/-- `Store::evict_over_budget`. -/
def evict_over_budget (self : Store) (order : TraceOrder) : Option Store :=
  evict_loop order self.trace_count self

/-- `Store::insert_span`. -/
def insert_span (self : Store) (trace_id : TraceId) (span : NewSpan) (now_unix_nano : UInt64)
    (order : TraceOrder) : Option (Store × StoreInsertOutcome) := do
  let (self, outcome) ← self.insert_span_no_evict trace_id span now_unix_nano
  let self ← self.evict_over_budget order
  return (self, outcome)

theorem new_trace (max_memory_bytes : ℕ) (id : TraceId) : (new max_memory_bytes).trace id = none :=
  Finmap.lookup_empty _

end Store

end Spanfall
