/-
`Types.lean` -- `src/store/types.rs`: the two id types, their hex form and the
attribute values.

A double is its 64-bit pattern. The store only ever copies doubles, and on bit
patterns "the same value" is plain equality, with no exception for NaN; the
arithmetic reading of the pattern belongs to the filter.
-/
import Spanfall.Lib.F64

set_option autoImplicit false

namespace Spanfall

/-- `TraceId(pub [u8; 16])`. -/
structure TraceId where
  bytes : Vector UInt8 16
  deriving DecidableEq

/-- `SpanId(pub [u8; 8])`. -/
structure SpanId where
  bytes : Vector UInt8 8
  deriving DecidableEq

/-- `tid` of the test modules. -/
def tid (b : UInt8) : TraceId := ⟨.replicate 16 b⟩

/-- `sid` of the test modules. -/
def sid (b : UInt8) : SpanId := ⟨.replicate 8 b⟩

/-- `AttrValue`. -/
inductive AttrValue where
  | str (s : String)
  | int (i : Int64)
  | double (d : F64)
  | bool (b : Bool)
  deriving DecidableEq

/-- `u64::checked_sub`. -/
def checked_sub (a b : UInt64) : Option UInt64 := if b ≤ a then some (a - b) else none

/-! ## Hex -/

/-- A hex digit in lower case, as `{:02x}` prints it. -/
def hex_digit (n : ℕ) : Char := "0123456789abcdef".toList.getD n '0'

/-- `TraceId::to_hex`. -/
def TraceId.to_hex (self : TraceId) : String :=
  String.ofList (self.bytes.toList.flatMap fun b =>
    [hex_digit (b.toNat / 16), hex_digit (b.toNat % 16)])

/-- `char::to_digit(16)` on one byte. -/
def to_digit16 (b : UInt8) : Option ℕ :=
  if 48 ≤ b.toNat ∧ b.toNat ≤ 57 then some (b.toNat - 48)
  else if 97 ≤ b.toNat ∧ b.toNat ≤ 102 then some (b.toNat - 87)
  else if 65 ≤ b.toNat ∧ b.toNat ≤ 70 then some (b.toNat - 55)
  else none

/-- The digits of `from_str_radix`, most significant first; the accumulator
overflows the byte after the second significant digit. -/
def digits_value : List UInt8 → ℕ → Option ℕ
  | [], acc => if acc < 256 then some acc else none
  | b :: bs, acc =>
    if acc < 256 then (to_digit16 b).bind fun d => digits_value bs (16 * acc + d) else none

/-- `u8::from_str_radix(pair, 16)`. One leading plus sign is accepted, a sign
with nothing behind it is not, and a minus sign is not a digit of an unsigned
type. `43` is the plus sign, `45` the minus sign. -/
def u8_from_str_radix_16 (src : List UInt8) : Option UInt8 :=
  match src with
  | [] => none
  | [b] => if b = 43 ∨ b = 45 then none else (digits_value [b] 0).map UInt8.ofNat
  | b :: bs => (digits_value (if b = 43 then bs else b :: bs) 0).map UInt8.ofNat

/-- `chunks(2)`. -/
def chunks2 : List UInt8 → List (List UInt8)
  | a :: b :: rest => [a, b] :: chunks2 rest
  | [a] => [[a]]
  | [] => []

/-- `<[u8; n]>::try_from`, on a slice of bytes. -/
def try_from (n : ℕ) (bytes : List UInt8) : Option (Vector UInt8 n) :=
  if h : bytes.length = n then some ⟨bytes.toArray, by simp [h]⟩ else none

theorem try_from_eq_some {n : ℕ} {bytes : List UInt8} {v : Vector UInt8 n} :
    try_from n bytes = some v ↔ v.toList = bytes := by
  unfold try_from
  constructor
  · intro h
    split at h
    · obtain rfl := Option.some.inj h
      simp
    · cases h
  · rintro rfl
    rw [dif_pos (by simp), Option.some.injEq]
    exact Vector.toArray_inj.mp rfl

theorem try_from_isSome {n : ℕ} {bytes : List UInt8} :
    (try_from n bytes).isSome ↔ bytes.length = n := by
  unfold try_from
  split
  · simp_all
  · simp_all

/-- `TraceId::from_hex`. The source first checks that the two bytes are UTF-8;
where they are not, one of them is no hex digit either, and both failures are
the same `None`. The bytes go into an array of sixteen, which 32 bytes of text
fill. -/
def TraceId.from_hex (s : String) : Option TraceId :=
  if s.utf8ByteSize ≠ 32 then none
  else do
    let bytes ← (chunks2 s.toUTF8.data.toList).mapM u8_from_str_radix_16
    (try_from 16 bytes).map TraceId.mk

end Spanfall
