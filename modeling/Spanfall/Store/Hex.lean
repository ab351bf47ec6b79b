/-
`Hex.lean` -- the texts that are trace ids.

`from_hex` measures the text in bytes, cuts it into pairs of bytes and hands
each pair to `u8::from_str_radix`. What `to_hex` prints is read back
([`TraceId.from_hex_to_hex`]), but the integer parser takes a sign, so a pair
may also be a plus sign and one digit ([`from_hex_isSome_iff`]). Such a text is
no id in hexadecimal, and the id that it denotes prints otherwise
([`hex_exact_iff`]).
-/
import Spanfall.Lib.Utf8
import Spanfall.Lib.Vec
import Spanfall.Store.Types

set_option autoImplicit false

namespace Spanfall

open Lib.Utf8 Lib.Vec

/-! ## What an id is to look like -/

/-- A hexadecimal digit, in either case. -/
def IsHexDigit (c : Char) : Prop := c ∈ "0123456789abcdefABCDEF".toList

instance : DecidablePred IsHexDigit := fun c => inferInstanceAs (Decidable (c ∈ _))

/-- 32 hexadecimal digits. -/
def HexText (s : String) : Prop := s.toList.length = 32 ∧ ∀ c ∈ s.toList, IsHexDigit c

/-- A text in lower case. -/
def lower (s : String) : String := String.ofList (s.toList.map Char.toLower)

/-- The text is parsed as it is to be: if it is 32 hexadecimal digits, to the id
that prints so, and else not at all. -/
def ParsesExactly (s : String) : Prop :=
  ((TraceId.from_hex s).isSome ↔ HexText s)
    ∧ ∀ id, TraceId.from_hex s = some id → id.to_hex = lower s

/-- Sixteen pairs of two digits, or of a plus sign and a digit, with at least
one plus sign. -/
def Signed (s : String) : Prop :=
  ∃ pairs : List (Char × Char), pairs.length = 16 ∧ s.toList = pairs.flatMap (fun p => [p.1, p.2])
    ∧ (∀ p ∈ pairs, (IsHexDigit p.1 ∨ p.1 = '+') ∧ IsHexDigit p.2) ∧ ∃ p ∈ pairs, p.1 = '+'

/-! ## Pairs -/

section Pairs

variable {α β : Type}

/-- The pairs of a list, one after the other. -/
def unpair (pairs : List (α × α)) : List α := pairs.flatMap fun p => [p.1, p.2]

theorem unpair_cons (p : α × α) (pairs : List (α × α)) :
    unpair (p :: pairs) = p.1 :: p.2 :: unpair pairs := rfl

theorem map_unpair (f : α → β) (pairs : List (α × α)) :
    (unpair pairs).map f = unpair (pairs.map fun p => (f p.1, f p.2)) := by
  rw [unpair, List.map_flatMap, unpair, List.flatMap_map]
  rfl

theorem unpair_length (pairs : List (α × α)) : (unpair pairs).length = 2 * pairs.length := by
  induction pairs with
  | nil => rfl
  | cons p pairs ih =>
    rw [unpair_cons, List.length_cons, List.length_cons, ih, List.length_cons]
    omega

theorem mem_unpair {pairs : List (α × α)} {x : α} :
    x ∈ unpair pairs ↔ ∃ p ∈ pairs, x = p.1 ∨ x = p.2 := by
  simp [unpair]

/-- An even list is one of pairs. -/
theorem exists_pairs {n : ℕ} : ∀ {l : List α}, l.length = 2 * n →
    ∃ pairs, pairs.length = n ∧ l = unpair pairs := by
  induction n with
  | zero =>
    intro l h
    exact ⟨[], rfl, List.length_eq_zero_iff.mp h⟩
  | succ n ih =>
    intro l h
    match l, h with
    | a :: b :: l, h =>
      simp only [List.length_cons] at h
      obtain ⟨pairs, hlen, rfl⟩ := ih (l := l) (by omega)
      exact ⟨(a, b) :: pairs, by rw [List.length_cons, hlen], rfl⟩

theorem chunks2_unpair (pairs : List (UInt8 × UInt8)) :
    chunks2 (unpair pairs) = pairs.map fun p => [p.1, p.2] := by
  induction pairs with
  | nil => rfl
  | cons p pairs ih => rw [unpair_cons, chunks2, ih, List.map_cons]

end Pairs

/-! ## One pair -/

/-- The value of a pair of bytes: two digits, or a plus sign and one. -/
def pair_value (p : UInt8 × UInt8) : Option UInt8 :=
  if p.1 = 43 then (to_digit16 p.2).map UInt8.ofNat
  else do
    let high ← to_digit16 p.1
    let low ← to_digit16 p.2
    return UInt8.ofNat (16 * high + low)

/-- A byte that is read as a digit is one, and prints in lower case. -/
theorem digit_spec {b : UInt8} {d : ℕ} (h : to_digit16 b = some d) :
    d < 16 ∧ b.toNat < 128 ∧ IsHexDigit (char_of b) ∧ hex_digit d = (char_of b).toLower := by
  have hall : ∀ n < 256, ∀ d ∈ to_digit16 (UInt8.ofNat n), d < 16 ∧ (UInt8.ofNat n).toNat < 128
      ∧ IsHexDigit (char_of (UInt8.ofNat n))
      ∧ hex_digit d = (char_of (UInt8.ofNat n)).toLower := by decide +kernel
  have hb := hall b.toNat b.toNat_lt d
  rw [UInt8.ofNat_toNat] at hb
  exact hb h

/-- A digit is read as one, and it is no sign. -/
theorem isSome_of_hex_digit {c : Char} (h : IsHexDigit c) :
    c.toNat < 128 ∧ (to_digit16 (byte_of c)).isSome ∧ byte_of c ≠ 43 := by
  have hall := List.all_eq_true.mp (show "0123456789abcdefABCDEF".toList.all (fun c =>
    decide (c.toNat < 128 ∧ (to_digit16 (byte_of c)).isSome ∧ byte_of c ≠ 43)) = true by
      decide +kernel)
  exact of_decide_eq_true (hall c h)

/-- What `to_hex` prints for a digit. -/
theorem hex_digit_spec {d : ℕ} (h : d < 16) : (hex_digit d).toNat < 128
    ∧ to_digit16 (byte_of (hex_digit d)) = some d ∧ byte_of (hex_digit d) ≠ 43 := by
  have hall : ∀ d < 16, (hex_digit d).toNat < 128
      ∧ to_digit16 (byte_of (hex_digit d)) = some d ∧ byte_of (hex_digit d) ≠ 43 := by
    decide +kernel
  exact hall d h

theorem digits_value_one (b : UInt8) : digits_value [b] 0 = to_digit16 b := by
  rw [digits_value, if_pos (by decide)]
  cases hd : to_digit16 b with
  | none => rfl
  | some d =>
    have hlt := (digit_spec hd).1
    rw [Option.bind_some, digits_value, if_pos (by omega), Nat.mul_zero, Nat.zero_add]

/-- **A chunk is read as a pair**: two digits never overflow the byte. -/
theorem u8_from_str_radix_pair (p : UInt8 × UInt8) :
    u8_from_str_radix_16 [p.1, p.2] = pair_value p := by
  rw [u8_from_str_radix_16, pair_value]
  · by_cases hsign : p.1 = 43
    · rw [if_pos hsign, if_pos hsign, digits_value_one]
    · rw [if_neg hsign, if_neg hsign, digits_value, if_pos (by decide)]
      cases hd : to_digit16 p.1 with
      | none => rfl
      | some high =>
        have hhigh := (digit_spec hd).1
        rw [Option.bind_some, digits_value, if_pos (by omega)]
        cases hd' : to_digit16 p.2 with
        | none => rfl
        | some low =>
          have hlow := (digit_spec hd').1
          rw [Option.bind_some, digits_value, if_pos (by omega), Nat.mul_zero, Nat.zero_add]
          rfl
  · exact nofun

theorem pair_value_isSome (p : UInt8 × UInt8) : (pair_value p).isSome
    ↔ (p.1 = 43 ∨ (to_digit16 p.1).isSome) ∧ (to_digit16 p.2).isSome := by
  rw [pair_value]
  by_cases hsign : p.1 = 43
  · simp [hsign]
  · cases to_digit16 p.1 <;> cases to_digit16 p.2 <;> simp [hsign]

/-! ## A text -/

theorem mapM_chunks (pairs : List (UInt8 × UInt8)) :
    (chunks2 (unpair pairs)).mapM u8_from_str_radix_16 = pairs.mapM pair_value := by
  rw [chunks2_unpair, List.mapM_map]
  congr 1
  funext p
  exact u8_from_str_radix_pair p

/-- **What is parsed**: sixteen pairs of bytes, each with a value. -/
theorem from_hex_eq_some {s : String} {id : TraceId} : TraceId.from_hex s = some id
    ↔ ∃ pairs, s.toUTF8.data.toList = unpair pairs
        ∧ pairs.mapM pair_value = some id.bytes.toList := by
  have hsize : s.utf8ByteSize = s.toUTF8.data.toList.length := by
    rw [Array.length_toList]
    rfl
  rw [TraceId.from_hex, hsize]
  constructor
  · intro h
    by_cases hlen : s.toUTF8.data.toList.length = 2 * 16
    · rw [if_neg (not_not.mpr hlen)] at h
      obtain ⟨pairs, _, hpairs⟩ := exists_pairs hlen
      rw [hpairs, mapM_chunks] at h
      obtain ⟨bytes, hbytes, h⟩ := Option.bind_eq_some_iff.mp h
      obtain ⟨v, hv, rfl⟩ := Option.map_eq_some_iff.mp h
      exact ⟨pairs, hpairs, hbytes.trans (congrArg some (try_from_eq_some.mp hv).symm)⟩
    · rw [if_pos hlen] at h
      cases h
  · rintro ⟨pairs, hpairs, hvalues⟩
    have hcount : id.bytes.toList.length = 16 := Vector.length_toList
    have hlen : (unpair pairs).length = 32 := by
      rw [unpair_length, ← length_of_mapM hvalues, hcount]
    have hread : try_from 16 id.bytes.toList = some id.bytes := try_from_eq_some.mpr rfl
    rw [hpairs, if_neg (not_not.mpr hlen), mapM_chunks, hvalues, Option.bind_eq_bind,
      Option.bind_some, hread]
    rfl

/-- In bytes: accepted are sixteen pairs that have a value each. -/
theorem from_hex_isSome_bytes (s : String) : (TraceId.from_hex s).isSome
    ↔ ∃ pairs, pairs.length = 16 ∧ s.toUTF8.data.toList = unpair pairs
        ∧ ∀ p ∈ pairs, (pair_value p).isSome := by
  constructor
  · intro h
    obtain ⟨id, hid⟩ := Option.isSome_iff_exists.mp h
    obtain ⟨pairs, hbytes, hvalues⟩ := from_hex_eq_some.mp hid
    have hlen : pairs.length = 16 := by
      rw [← length_of_mapM hvalues]
      exact Vector.length_toList
    exact ⟨pairs, hlen, hbytes, isSome_of_mapM hvalues⟩
  · rintro ⟨pairs, hlen, hbytes, hread⟩
    obtain ⟨values, hvalues⟩ := Option.isSome_iff_exists.mp (mapM_isSome hread)
    have hcount : values.length = 16 := by rw [length_of_mapM hvalues, hlen]
    have hid : pairs.mapM pair_value
        = some (TraceId.mk ⟨values.toArray, hcount⟩).bytes.toList := hvalues
    rw [from_hex_eq_some.mpr ⟨pairs, hbytes, hid⟩]
    rfl

theorem ascii_of_isSome {b : UInt8} (h : (to_digit16 b).isSome) :
    b.toNat < 128 ∧ IsHexDigit (char_of b) := by
  obtain ⟨d, hd⟩ := Option.isSome_iff_exists.mp h
  obtain ⟨_, hascii, hdigit, _⟩ := digit_spec hd
  exact ⟨hascii, hdigit⟩

/-- **What is accepted**: sixteen pairs of two digits, or of a plus sign and a
digit. -/
theorem from_hex_isSome_iff (s : String) : (TraceId.from_hex s).isSome
    ↔ ∃ pairs : List (Char × Char), pairs.length = 16 ∧ s.toList = unpair pairs
        ∧ ∀ p ∈ pairs, (IsHexDigit p.1 ∨ p.1 = '+') ∧ IsHexDigit p.2 := by
  rw [from_hex_isSome_bytes]
  constructor
  · rintro ⟨pairs, hlen, hbytes, hvalues⟩
    have hread := fun p hp => (pair_value_isSome p).mp (hvalues p hp)
    -- every byte is ASCII, so the text is its bytes
    have hascii : ∀ b ∈ s.toUTF8.data.toList, b.toNat < 128 := by
      rw [hbytes]
      intro b hb
      obtain ⟨p, hp, rfl | rfl⟩ := mem_unpair.mp hb
      · obtain ⟨hsign | hfirst, _⟩ := hread p hp
        · rw [hsign]
          decide
        · exact (ascii_of_isSome hfirst).1
      · exact (ascii_of_isSome (hread p hp).2).1
    refine ⟨pairs.map fun p => (char_of p.1, char_of p.2), by rw [List.length_map, hlen], ?_, ?_⟩
    · rw [toList_of_bytes_ascii hascii, hbytes, map_unpair]
    · intro p hp
      obtain ⟨q, hq, rfl⟩ := List.mem_map.mp hp
      obtain ⟨hfirst, hsecond⟩ := hread q hq
      refine ⟨?_, (ascii_of_isSome hsecond).2⟩
      obtain hsign | hfirst := hfirst
      · exact Or.inr ((congrArg char_of hsign).trans (by decide))
      · exact Or.inl (ascii_of_isSome hfirst).2
  · rintro ⟨pairs, hlen, hchars, hread⟩
    have hascii : ∀ c ∈ s.toList, c.toNat < 128 := by
      rw [hchars]
      intro c hc
      obtain ⟨p, hp, rfl | rfl⟩ := mem_unpair.mp hc
      · obtain hfirst | hsign := (hread p hp).1
        · exact (isSome_of_hex_digit hfirst).1
        · rw [hsign]
          decide
      · exact (isSome_of_hex_digit (hread p hp).2).1
    refine ⟨pairs.map fun p => (byte_of p.1, byte_of p.2), by rw [List.length_map, hlen], ?_, ?_⟩
    · rw [← map_unpair, ← hchars, ← utf8_bytes_ascii hascii, String.ofList_toList]
    · intro q hq
      obtain ⟨p, hp, rfl⟩ := List.mem_map.mp hq
      obtain ⟨hfirst, hsecond⟩ := hread p hp
      refine (pair_value_isSome _).mpr ⟨?_, (isSome_of_hex_digit hsecond).2.1⟩
      obtain hfirst | hsign := hfirst
      · exact Or.inr (isSome_of_hex_digit hfirst).2.1
      · exact Or.inl ((congrArg byte_of hsign).trans (by decide))

/-! ## What is printed -/

theorem pair_value_printed (b : UInt8) : pair_value
    (byte_of (hex_digit (b.toNat / 16)), byte_of (hex_digit (b.toNat % 16))) = some b := by
  have hb := b.toNat_lt
  obtain ⟨_, hhigh, hsign⟩ := hex_digit_spec (d := b.toNat / 16) (by omega)
  obtain ⟨_, hlow, _⟩ := hex_digit_spec (d := b.toNat % 16) (by omega)
  rw [pair_value, if_neg hsign, hhigh, hlow, Option.bind_eq_bind, Option.bind_some,
    Option.bind_some, Nat.div_add_mod, UInt8.ofNat_toNat]
  rfl

/-- **What is printed is read back.** -/
theorem TraceId.from_hex_to_hex (id : TraceId) : TraceId.from_hex id.to_hex = some id := by
  have hascii : ∀ c ∈ id.bytes.toList.flatMap (fun b =>
      [hex_digit (b.toNat / 16), hex_digit (b.toNat % 16)]), c.toNat < 128 := by
    intro c hc
    obtain ⟨b, _, hc⟩ := List.mem_flatMap.mp hc
    have hb := b.toNat_lt
    simp only [List.mem_cons, List.not_mem_nil, or_false] at hc
    obtain rfl | rfl := hc
    · exact (hex_digit_spec (by omega)).1
    · exact (hex_digit_spec (by omega)).1
  refine from_hex_eq_some.mpr ⟨id.bytes.toList.map fun b =>
    (byte_of (hex_digit (b.toNat / 16)), byte_of (hex_digit (b.toNat % 16))), ?_, ?_⟩
  · rw [TraceId.to_hex, utf8_bytes_ascii hascii, List.map_flatMap, unpair, List.flatMap_map]
    rfl
  · rw [List.mapM_map]
    exact (mapM_of_forall (g := fun b => b) fun b _ => pair_value_printed b).trans
      (congrArg some (List.map_id' _))

theorem TraceId.to_hex_injective {id id' : TraceId} (h : id.to_hex = id'.to_hex) : id = id' := by
  have hread := id.from_hex_to_hex
  rw [h, id'.from_hex_to_hex] at hread
  exact (Option.some.inj hread).symm

/-- Two digits print back in lower case. -/
theorem print_pair {p : UInt8 × UInt8} {b : UInt8} (h : pair_value p = some b) (hsign : p.1 ≠ 43) :
    [hex_digit (b.toNat / 16), hex_digit (b.toNat % 16)]
      = [(char_of p.1).toLower, (char_of p.2).toLower] := by
  rw [pair_value, if_neg hsign] at h
  obtain ⟨high, hhigh, h⟩ := Option.bind_eq_some_iff.mp h
  obtain ⟨low, hlow, h⟩ := Option.bind_eq_some_iff.mp h
  obtain ⟨hhigh16, _, _, hfirst⟩ := digit_spec hhigh
  obtain ⟨hlow16, _, _, hsecond⟩ := digit_spec hlow
  have hb : b.toNat = 16 * high + low := by
    rw [← Option.some.inj h, UInt8.toNat_ofNat', Nat.mod_eq_of_lt (by omega)]
  rw [hb, show (16 * high + low) / 16 = high by omega,
    show (16 * high + low) % 16 = low by omega, hfirst, hsecond]

theorem print_pairs {pairs : List (UInt8 × UInt8)} {bytes : List UInt8}
    (h : pairs.mapM pair_value = some bytes) (hsign : ∀ p ∈ pairs, p.1 ≠ 43) :
    bytes.flatMap (fun b => [hex_digit (b.toNat / 16), hex_digit (b.toNat % 16)])
      = (unpair pairs).map fun b => (char_of b).toLower := by
  induction pairs generalizing bytes with
  | nil =>
    obtain rfl : [] = bytes := Option.some.inj h
    rfl
  | cons p pairs ih =>
    obtain ⟨b, rest, hb, hrest, rfl⟩ := mapM_cons_eq_some.mp h
    rw [List.flatMap_cons, print_pair hb (hsign p List.mem_cons_self),
      ih hrest fun q hq => hsign q (List.mem_cons_of_mem _ hq), unpair_cons]
    rfl

/-! ## Exactly the ids -/

/-- Digits are accepted. -/
theorem isSome_of_hex_text {s : String} (h : HexText s) : (TraceId.from_hex s).isSome := by
  obtain ⟨hlen, hdigits⟩ := h
  obtain ⟨pairs, hcount, hchars⟩ := exists_pairs (n := 16) hlen
  rw [hchars] at hdigits
  exact (from_hex_isSome_iff s).mpr ⟨pairs, hcount, hchars, fun p hp =>
    ⟨Or.inl (hdigits p.1 (mem_unpair.mpr ⟨p, hp, Or.inl rfl⟩)),
      hdigits p.2 (mem_unpair.mpr ⟨p, hp, Or.inr rfl⟩)⟩⟩

/-- And nothing else is, but for signs. -/
theorem hex_text_or_signed {s : String} (h : (TraceId.from_hex s).isSome) :
    HexText s ∨ Signed s := by
  obtain ⟨pairs, hlen, hchars, hread⟩ := (from_hex_isSome_iff s).mp h
  by_cases hsign : ∃ p ∈ pairs, p.1 = '+'
  · exact Or.inr ⟨pairs, hlen, hchars, hread, hsign⟩
  · refine Or.inl ⟨by rw [hchars, unpair_length, hlen], ?_⟩
    rw [hchars]
    intro c hc
    obtain ⟨p, hp, rfl | rfl⟩ := mem_unpair.mp hc
    · exact (hread p hp).1.resolve_right fun hplus => hsign ⟨p, hp, hplus⟩
    · exact (hread p hp).2

theorem not_hex_text_of_signed {s : String} (h : Signed s) : ¬HexText s := by
  obtain ⟨pairs, _, hchars, _, p, hp, hplus⟩ := h
  intro htext
  have hdigit := htext.2 p.1 (hchars ▸ mem_unpair.mpr ⟨p, hp, Or.inl rfl⟩)
  rw [hplus] at hdigit
  exact absurd hdigit (by decide)

/-- **An id of digits prints as those digits**, in lower case. -/
theorem to_hex_of_hex_text {s : String} {id : TraceId} (h : HexText s)
    (hid : TraceId.from_hex s = some id) : id.to_hex = lower s := by
  obtain ⟨pairs, hbytes, hvalues⟩ := from_hex_eq_some.mp hid
  have hascii : ∀ c ∈ s.toList, c.toNat < 128 := fun c hc => (isSome_of_hex_digit (h.2 c hc)).1
  have hencoded : s.toUTF8.data.toList = s.toList.map byte_of := by
    rw [← utf8_bytes_ascii hascii, String.ofList_toList]
  have hsign : ∀ b ∈ s.toUTF8.data.toList, b.toNat < 128 ∧ b ≠ 43 := by
    rw [hencoded]
    intro b hb
    obtain ⟨c, hc, rfl⟩ := List.mem_map.mp hb
    obtain ⟨_, hdigit, hplus⟩ := isSome_of_hex_digit (h.2 c hc)
    obtain ⟨d, hd⟩ := Option.isSome_iff_exists.mp hdigit
    exact ⟨(digit_spec hd).2.1, hplus⟩
  have hprint := print_pairs hvalues fun p hp =>
    (hsign p.1 (hbytes ▸ mem_unpair.mpr ⟨p, hp, Or.inl rfl⟩)).2
  rw [TraceId.to_hex, hprint, lower, toList_of_bytes_ascii fun b hb => (hsign b hb).1, hbytes,
    List.map_map]
  rfl

theorem parses_exactly_of_unsigned {s : String} (h : ¬Signed s) : ParsesExactly s := by
  have htext : (TraceId.from_hex s).isSome → HexText s := fun hsome =>
    (hex_text_or_signed hsome).resolve_right h
  exact ⟨⟨htext, isSome_of_hex_text⟩, fun id hid =>
    to_hex_of_hex_text (htext (Option.isSome_of_eq_some hid)) hid⟩

/-- **Ids are parsed exactly, but for signs.** A text is parsed as it is to be
exactly when it is not one with a plus sign in the place of a digit; every id's
hexadecimal form is read back; and of texts without signs no two in lower case
are one id. -/
theorem hex_exact_iff (s : String) :
    (ParsesExactly s ↔ ¬Signed s)
      ∧ (∀ id : TraceId, TraceId.from_hex id.to_hex = some id)
      ∧ ∀ s' id, ¬Signed s → ¬Signed s' → lower s = s → lower s' = s' →
          TraceId.from_hex s = some id → TraceId.from_hex s' = some id → s = s' := by
  refine ⟨⟨fun hparse hsigned => ?_, parses_exactly_of_unsigned⟩, TraceId.from_hex_to_hex, ?_⟩
  · -- a signed text is accepted, and no hexadecimal
    obtain ⟨pairs, hlen, hchars, hread, _⟩ := id hsigned
    have hsome := (from_hex_isSome_iff s).mpr ⟨pairs, hlen, hchars, hread⟩
    exact not_hex_text_of_signed hsigned (hparse.1.mp hsome)
  · intro s' id hs hs' hlower hlower' hid hid'
    rw [← hlower, ← (parses_exactly_of_unsigned hs).2 id hid, ← hlower',
      ← (parses_exactly_of_unsigned hs').2 id hid']

/-- Sixteen times a sign and a one: accepted, as the id of sixteen ones. -/
theorem signed_accepted : ¬ParsesExactly "+1+1+1+1+1+1+1+1+1+1+1+1+1+1+1+1" := by
  intro h
  have hsome : (TraceId.from_hex "+1+1+1+1+1+1+1+1+1+1+1+1+1+1+1+1").isSome := by decide +kernel
  have hdigit := (h.1.mp hsome).2 '+' (by decide)
  exact absurd hdigit (by decide)

end Spanfall
