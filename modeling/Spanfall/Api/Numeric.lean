/-
`Numeric.lean` -- numeric filters on integer attributes.

`=` and `!=` compare as `i64`, the four orderings as `f64`. A literal that is an
`i64` is read as the double of that integer ([`parse_i64_f64`]), so an ordering
compares the two integers after each has been rounded to 53 bits. It answers as
the integers do unless the rounding makes two different ones equal
([`numeric_exact_iff`]); then `>` is false and `>=` true of both.
-/
import Spanfall.Lib.Rounding
import Spanfall.Api.Complement

set_option autoImplicit false

namespace Spanfall

open Lib.Runs

/-- The comparison of two integers. -/
def Op.of_ints (op : Op) (a b : ℤ) : Bool :=
  match op with
  | .eq => decide (a = b)
  | .ne => decide (a ≠ b)
  | .gt => decide (a > b)
  | .gte => decide (a ≥ b)
  | .lt => decide (a < b)
  | .lte => decide (a ≤ b)

/-! ## A literal in both domains -/

/-- What the text of an `i64` looks like. -/
theorem parse_i64_digits {raw : String} {n : Int64} (h : parse_i64 raw = some n) :
    ∃ neg cs d ds, F64.take_sign raw.toList = (neg, cs) ∧ F64.take_digits cs = (d :: ds, [])
      ∧ n.toInt = if neg then -(F64.decimal (d :: ds) : ℤ) else F64.decimal (d :: ds) := by
  unfold parse_i64 at h
  generalize hsign : F64.take_sign raw.toList = signed at h
  obtain ⟨neg, cs⟩ := signed
  obtain ⟨k, hk, h⟩ := Option.bind_eq_some_iff.mp h
  unfold parse_digits at hk
  generalize hdigits : F64.take_digits cs = digits at hk
  obtain ⟨ds, rest⟩ := digits
  cases ds with
  | nil => cases hk
  | cons d ds =>
    cases rest with
    | cons c rest => cases hk
    | nil =>
      obtain rfl : F64.decimal (d :: ds) = k := Option.some.inj hk
      refine ⟨neg, cs, d, ds, rfl, hdigits, ?_⟩
      -- in range on either side of zero, so the cast does not wrap
      cases neg with
      | true =>
        simp only [if_true] at h ⊢
        split_ifs at h with hle
        rw [← Option.some.inj h, Int64.toInt_ofInt_of_le (by omega) (by omega)]
      | false =>
        simp only [Bool.false_eq_true, if_false] at h ⊢
        split_ifs at h with hlt
        rw [← Option.some.inj h, Int64.toInt_ofInt_of_le (by omega) (by omega)]

/-- **An `i64` literal is read as the double of the integer**, but for the sign
of a zero. -/
theorem parse_i64_f64 {raw : String} {n : Int64} (h : parse_i64 raw = some n) :
    ∃ want, F64.parse raw = some want ∧ want.is_nan = false
      ∧ want.key = (F64.of_int n.toInt).key := by
  obtain ⟨neg, cs, d, ds, hsign, hdigits, hn⟩ := parse_i64_digits h
  have hinf := F64.round_magnitude_le_inf (F64.decimal (d :: ds))
  refine ⟨_, F64.parse_integer hsign hdigits, F64.not_nan_of_magnitude hinf neg, ?_⟩
  rw [F64.key_of_magnitude hinf, F64.key_of_int]
  generalize F64.decimal (d :: ds) = k at hn
  have habs : n.toInt.natAbs = k := by
    rw [hn]
    cases neg <;> simp
  rw [habs]
  cases neg with
  | false =>
    rw [if_neg Bool.false_ne_true] at hn
    rw [if_neg Bool.false_ne_true, if_neg (by omega)]
  | true =>
    rw [if_pos rfl] at hn
    rcases Nat.eq_zero_or_pos k with rfl | hk
    · -- minus zero
      simp [hn, F64.round_magnitude]
    · rw [if_pos rfl, if_pos (by omega)]

/-- An `i64` does not begin with the equals sign that would join an operator. -/
theorem parse_i64_head {raw : String} {n : Int64} (h : parse_i64 raw = some n) :
    raw.toList.head? ≠ some '=' := by
  obtain ⟨neg, cs, d, ds, hsign, hdigits, _⟩ := parse_i64_digits h
  intro hhead
  cases hraw : raw.toList with
  | nil =>
    rw [hraw] at hhead
    cases hhead
  | cons c rest =>
    rw [hraw] at hhead hsign
    obtain rfl : c = '=' := Option.some.inj hhead
    obtain ⟨rfl, rfl⟩ := Prod.mk.inj hsign
    have hdigit : F64.digit '=' = none := by decide
    rw [F64.take_digits, hdigit] at hdigits
    cases hdigits

/-! ## One value -/

section Value

variable {i n : Int64} {raw : String}

/-- The two domains, side by side: the integers, and their doubles. -/
theorem attr_matches_int (hraw : parse_i64 raw = some n) (op : Op) :
    attr_matches op (.int i) raw
      = if op = .eq ∨ op = .ne then op.of_ints i.toInt n.toInt
        else op.of_ints (F64.of_int i.toInt).key (F64.of_int n.toInt).key := by
  obtain ⟨want, hwant, hnan, hkey⟩ := parse_i64_f64 hraw
  have hnan' := F64.not_nan_of_int i.toInt
  have hinj : n = i ↔ i.toInt = n.toInt := by
    rw [Int64.toInt_inj]
    exact eq_comm
  cases op <;>
    simp [attr_matches, hraw, hwant, Op.of_ints, cmp_f64, F64.lt, F64.le, hnan, hnan', hkey, hinj]

/-- **One value**: all six operators answer as on the integers exactly when no
rounding has made the two equal. -/
theorem attr_matches_exact_iff (hraw : parse_i64 raw = some n) :
    (∀ op, attr_matches op (.int i) raw = op.of_ints i.toInt n.toInt)
      ↔ i = n ∨ F64.of_int i.toInt ≠ F64.of_int n.toInt := by
  constructor
  · intro h
    by_contra hnot
    rw [not_or, not_not] at hnot
    obtain ⟨hne, hsame⟩ := hnot
    -- neither above nor below as doubles, and one of the two as integers
    have hgt := h .gt
    have hlt := h .lt
    rw [attr_matches_int hraw, if_neg (by decide), hsame] at hgt hlt
    simp only [Op.of_ints, gt_iff_lt, lt_self_iff_false, decide_false, eq_comm (a := false),
      decide_eq_false_iff_not, not_lt] at hgt hlt
    exact hne (Int64.toInt_inj.mp (le_antisymm hgt hlt))
  · intro h op
    have hiff : i.toInt = n.toInt ∨ F64.of_int i.toInt ≠ F64.of_int n.toInt := by
      rwa [Int64.toInt_inj]
    have hiff' : n.toInt = i.toInt ∨ F64.of_int n.toInt ≠ F64.of_int i.toInt :=
      hiff.imp Eq.symm Ne.symm
    have habove := F64.key_lt_iff hiff'
    have hbelow := F64.key_lt_iff hiff
    have hnotabove := not_congr habove
    have hnotbelow := not_congr hbelow
    rw [not_lt, not_lt] at hnotabove hnotbelow
    rw [attr_matches_int hraw]
    cases op with
    | eq => rfl
    | ne => rfl
    | gt => simp [Op.of_ints, habove]
    | gte => simp [Op.of_ints, hnotbelow]
    | lt => simp [Op.of_ints, hbelow]
    | lte => simp [Op.of_ints, hnotabove]

end Value

/-! ## One term -/

section Term

variable {s : Store} {t : Trace} {idx : ℕ} {key : String} {key_id : UInt32} {i n : Int64}
  {raw : String}

/-- The term `KEY op RAW` on a span with one value for the key. -/
theorem matches_single (hkey : GrammarKey key) (hknown : s.attribute_key_id key = some key_id)
    (hvalues : t.values_under key_id idx = some [.int i]) (hraw : parse_i64 raw = some n) (op : Op) :
    ∃ term, parse_term (key ++ op.literal ++ raw) false s = .ok term
      ∧ term.matches t s idx = some (attr_matches op (.int i) raw) := by
  refine ⟨_, parse_attr_comparison hkey (fun _ => parse_i64_head hraw) s, ?_⟩
  rw [hknown, matches_values, hvalues]
  simp

/-- **Numeric filters are exact but for the rounding.** On a span whose only
value for the key is an integer, the six terms with an `i64` literal answer as
the integers compare, if and only if the two are equal or are different
doubles. -/
theorem numeric_exact_iff (hkey : GrammarKey key) (hknown : s.attribute_key_id key = some key_id)
    (hvalues : t.values_under key_id idx = some [.int i]) (hraw : parse_i64 raw = some n) :
    (∀ op : Op, ∃ term, parse_term (key ++ op.literal ++ raw) false s = .ok term
        ∧ term.matches t s idx = some (op.of_ints i.toInt n.toInt))
      ↔ i = n ∨ F64.of_int i.toInt ≠ F64.of_int n.toInt := by
  rw [← attr_matches_exact_iff hraw]
  apply forall_congr'
  intro op
  obtain ⟨term, hparse, hmatch⟩ := matches_single hkey hknown hvalues hraw op
  constructor
  · rintro ⟨term', hparse', hmatch'⟩
    obtain rfl := Except.ok.inj (hparse.symm.trans hparse')
    exact Option.some.inj (hmatch.symm.trans hmatch')
  · exact fun h => ⟨term, hparse, h ▸ hmatch⟩

/-- Up to `2 ^ 53` there is nothing to round. -/
theorem numeric_exact_small (hkey : GrammarKey key) (hknown : s.attribute_key_id key = some key_id)
    (hvalues : t.values_under key_id idx = some [.int i]) (hraw : parse_i64 raw = some n)
    (hi : i.toInt.natAbs ≤ 2 ^ 53) (hn : n.toInt.natAbs ≤ 2 ^ 53) (op : Op) :
    ∃ term, parse_term (key ++ op.literal ++ raw) false s = .ok term
      ∧ term.matches t s idx = some (op.of_ints i.toInt n.toInt) := by
  have hexact : i = n ∨ F64.of_int i.toInt ≠ F64.of_int n.toInt := by
    by_cases heq : i = n
    · exact Or.inl heq
    · exact Or.inr (F64.of_int_exact hi hn fun h => heq (Int64.toInt_inj.mp h))
  obtain ⟨term, hparse, hmatch⟩ := matches_single hkey hknown hvalues hraw op
  exact ⟨term, hparse, (attr_matches_exact_iff hraw).mpr hexact op ▸ hmatch⟩

end Term

namespace Store

/-- A span with a value just above `2 ^ 53`. -/
def counter_run : List Event :=
  [.insert (tid 1) { Trace.span 1 none "a" with attributes := [("k", .int 9007199254740993)] } 0]

theorem counter_runs : (exec step counter_run (new 10000)).isSome := by decide +kernel

theorem counter_resident : ((Option.get _ counter_runs).trace (tid 1)).isSome := by decide +kernel

theorem counter_values :
    (Option.get _ counter_resident).values_under 0 0 = some [.int 9007199254740993] := by
  decide +kernel

/-- Compared with the double above it. -/
theorem numeric_exact_iff_counter :
    ∃ s t, exec step counter_run (new 10000) = some s ∧ s.trace (tid 1) = some t
      ∧ ∀ op : Op, ∃ term, parse_term ("k" ++ op.literal ++ "9007199254740995") false s = .ok term
        ∧ term.matches t s 0 = some (op.of_ints 9007199254740993 9007199254740995) := by
  have hkey : GrammarKey "k" := ⟨⟨'k', [], by decide, by decide, nofun⟩, by decide⟩
  have hraw : parse_i64 "9007199254740995" = some 9007199254740995 := by decide +kernel
  exact ⟨_, _, (Option.some_get counter_runs).symm, (Option.some_get counter_resident).symm,
    (numeric_exact_iff hkey (by decide +kernel) counter_values hraw).mpr
      (Or.inr (by decide +kernel))⟩

/-- **`2 ^ 53 + 1` is not above `2 ^ 53`**: the filter `k>9007199254740992`
misses a span with `k = 9007199254740993`, and `k<=` hits it. -/
theorem counter_not_above :
    ∃ s t, exec step counter_run (new 10000) = some s ∧ s.trace (tid 1) = some t
      ∧ t.values_under 0 0 = some [.int 9007199254740993]
      ∧ parse_i64 "9007199254740992" = some 9007199254740992
      ∧ (9007199254740993 : Int64).toInt > (9007199254740992 : Int64).toInt
      ∧ (∃ term, parse_term "k>9007199254740992" false s = .ok term
          ∧ term.matches t s 0 = some false)
      ∧ ∃ term, parse_term "k<=9007199254740992" false s = .ok term
          ∧ term.matches t s 0 = some true := by
  refine ⟨_, _, (Option.some_get counter_runs).symm, (Option.some_get counter_resident).symm,
    counter_values, by decide +kernel, by decide +kernel,
    ⟨.attr .gt (some 0) "9007199254740992", by decide +kernel, by decide +kernel⟩,
    ⟨.attr .lte (some 0) "9007199254740992", by decide +kernel, by decide +kernel⟩⟩

end Store

end Spanfall
