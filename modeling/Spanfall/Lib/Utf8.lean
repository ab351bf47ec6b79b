/-
`Utf8.lean` -- a text cut at a byte offset.

Rust slices a `&str` at byte offsets, and an offset inside a character panics.
The text is a list of characters here. A cut at the byte length of a front part
goes through ([`cut_of_initial`]), and where that part is ASCII the byte
length is the number of its characters ([`byte_length_ascii`]).

An ASCII text is its bytes ([`utf8_bytes_ascii`], [`toList_of_bytes_ascii`]).
-/
import Mathlib.Algebra.BigOperators.Group.List.Basic
import Mathlib.Algebra.Order.Ring.Nat

set_option autoImplicit false

namespace Lib.Utf8

/-- The bytes that the characters take in UTF-8. -/
def byte_length (cs : List Char) : ℕ := (cs.map Char.utf8Size).sum

/-- `(&s[..n], &s[n..])`: panics past the end and inside a character. -/
def cut : List Char → ℕ → Option (List Char × List Char)
  | cs, 0 => some ([], cs)
  | [], _ + 1 => none
  | c :: cs, n + 1 =>
    if c.utf8Size ≤ n + 1 then (cut cs (n + 1 - c.utf8Size)).map fun p => (c :: p.1, p.2) else none

/-- **A cut at the end of a front part** gives that part and the rest. -/
theorem cut_append (l r : List Char) : cut (l ++ r) (byte_length l) = some (l, r) := by
  induction l with
  | nil =>
    unfold byte_length
    rw [List.map_nil, List.sum_nil, List.nil_append, cut]
  | cons c l ih =>
    have hlen : byte_length (c :: l) = c.utf8Size + byte_length l := by
      rw [byte_length, List.map_cons, List.sum_cons, byte_length]
    -- a character takes at least one byte, so the offset is a successor
    obtain ⟨n, hn⟩ : ∃ n, c.utf8Size + byte_length l = n + 1 :=
      Nat.exists_eq_add_one_of_ne_zero (by have := c.utf8Size_pos; omega)
    rw [hlen, hn, List.cons_append, cut, if_pos (by omega)]
    rw [show n + 1 - c.utf8Size = byte_length l by omega, ih]
    rfl

theorem cut_of_initial {cs l : List Char} (h : l <+: cs) :
    cut cs (byte_length l) = some (l, cs.drop l.length) := by
  obtain ⟨r, rfl⟩ := h
  rw [cut_append, List.drop_left]

theorem utf8Size_ascii {c : Char} (h : c.toNat < 128) : c.utf8Size = 1 := by
  rw [Char.utf8Size_eq_one_iff, UInt32.le_iff_toNat_le]
  exact Nat.le_of_lt_succ h

theorem byte_length_ascii {cs : List Char} (h : ∀ c ∈ cs, c.toNat < 128) :
    byte_length cs = cs.length := by
  induction cs with
  | nil => rfl
  | cons c cs ih =>
    have htail := ih fun d hd => h d (List.mem_cons_of_mem _ hd)
    rw [byte_length] at htail
    rw [byte_length, List.map_cons, List.sum_cons, htail, utf8Size_ascii (h c List.mem_cons_self),
      List.length_cons, Nat.add_comm]

/-! ## ASCII -/

/-- The byte of an ASCII character. -/
def byte_of (c : Char) : UInt8 := c.val.toUInt8

/-- The character of an ASCII byte. -/
def char_of (b : UInt8) : Char := Char.ofNat b.toNat

theorem byte_of_char_of {b : UInt8} (h : b.toNat < 128) :
    byte_of (char_of b) = b ∧ (char_of b).toNat < 128 := by
  have hall : ∀ n < 128, byte_of (char_of (UInt8.ofNat n)) = UInt8.ofNat n
      ∧ (char_of (UInt8.ofNat n)).toNat < 128 := by decide +kernel
  have hb := hall b.toNat h
  rwa [UInt8.ofNat_toNat] at hb

theorem utf8_bytes_ascii {cs : List Char} (h : ∀ c ∈ cs, c.toNat < 128) :
    (String.ofList cs).toUTF8.data.toList = cs.map byte_of := by
  change (String.ofList cs).toByteArray.data.toList = _
  rw [String.toByteArray_ofList, List.utf8Encode, List.data_toByteArray, List.map_eq_flatMap]
  apply List.flatMap_congr
  intro c hc
  exact String.utf8EncodeChar_eq_singleton (utf8Size_ascii (h c hc))

/-- Bytes below 128 say what the text is. -/
theorem toList_of_bytes_ascii {s : String} (h : ∀ b ∈ s.toUTF8.data.toList, b.toNat < 128) :
    s.toList = s.toUTF8.data.toList.map char_of := by
  have hchars : ∀ c ∈ s.toUTF8.data.toList.map char_of, c.toNat < 128 := by
    intro c hc
    obtain ⟨b, hb, rfl⟩ := List.mem_map.mp hc
    exact (byte_of_char_of (h b hb)).2
  have hback : (s.toUTF8.data.toList.map char_of).map byte_of = s.toUTF8.data.toList := by
    rw [List.map_map]
    exact (List.map_congr_left fun b hb => (byte_of_char_of (h b hb)).1).trans (List.map_id _)
  -- the same bytes are the same text
  have hsame : String.ofList (s.toUTF8.data.toList.map char_of) = s := by
    refine String.toByteArray_inj.mp (ByteArray.ext (Array.toList_inj.mp ?_))
    exact (utf8_bytes_ascii hchars).trans hback
  rw [← String.toList_ofList (l := s.toUTF8.data.toList.map char_of), hsame]

end Lib.Utf8
