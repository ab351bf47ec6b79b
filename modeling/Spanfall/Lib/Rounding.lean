/-
`Rounding.lean` -- integers as doubles.

An integer is rounded to 53 significant bits, ties to even. Rounding keeps the
order ([`F64.of_int_mono`]), but not strictly: two integers can become one
double, and that is the only way a comparison of the doubles can differ from
one of the integers ([`F64.key_lt_iff`]). Up to `2 ^ 53` it does not happen
([`F64.of_int_exact`]). A decimal literal without a point is read as the double
of the integer it spells ([`F64.parse_integer`]).
-/
import Spanfall.Lib.F64

set_option autoImplicit false

namespace F64

/-! ## To the nearest integer -/

theorem div_round_mono {a b : ℕ} (d : ℕ) (h : a ≤ b) : div_round a d ≤ div_round b d := by
  have hq : a / d ≤ b / d := Nat.div_le_div_right h
  simp only [div_round]
  rcases Nat.lt_or_eq_of_le hq with hlt | heq
  · -- the next integer at most, against at least the next integer
    split_ifs <;> omega
  · -- the same quotient, so the remainders are in order
    have hr : a % d ≤ b % d := by
      have ha := Nat.div_add_mod a d
      have hb := Nat.div_add_mod b d
      rw [heq] at ha
      omega
    rw [heq]
    split_ifs <;> omega

theorem div_round_one (n : ℕ) : div_round n 1 = n := by
  simp [div_round, Nat.mod_one]

theorem le_div_round (n d : ℕ) : n / d ≤ div_round n d := by
  simp only [div_round]
  split_ifs <;> omega

theorem div_round_le (n d : ℕ) : div_round n d ≤ n / d + 1 := by
  simp only [div_round]
  split_ifs <;> omega

/-! ## The magnitude of an integer -/

/-- The significand of an integer, its leading bit included, before a carry. -/
def significand (n : ℕ) : ℕ := div_round (n * 2 ^ (52 - n.log2)) (2 ^ (n.log2 - 52))

theorem round_magnitude_integer {n : ℕ} (h : n ≠ 0) :
    round_magnitude n 1 = min inf ((n.log2 + 1022) * 2 ^ 52 + significand n) := by
  have hlog : log2_ratio n 1 = n.log2 := by
    have hk : (n.log2 : ℤ) - (Nat.log2 1 : ℕ) = n.log2 := by
      rw [show Nat.log2 1 = 0 by decide]
      simp
    have hle : 1 * 2 ^ n.log2 ≤ n * 2 ^ (-(n.log2 : ℤ)).toNat := by
      rw [one_mul]
      exact (Nat.log2_self_le h).trans (Nat.le_mul_of_pos_right n (Nat.two_pow_pos _))
    rw [log2_ratio, hk, Int.toNat_natCast, if_pos hle]
  have he : max (-1074) ((n.log2 : ℤ) - 52) = (n.log2 : ℤ) - 52 := by omega
  have hexp : ((n.log2 : ℤ) - 52 + 1074).toNat = n.log2 + 1022 := by omega
  have hdown : (-((n.log2 : ℤ) - 52)).toNat = 52 - n.log2 := by omega
  have hup : ((n.log2 : ℤ) - 52).toNat = n.log2 - 52 := by omega
  simp only [round_magnitude, if_neg h, hlog, he, hexp, hdown, hup, one_mul, significand]

theorem significand_bounds {n : ℕ} (h : n ≠ 0) :
    2 ^ 52 ≤ significand n ∧ significand n ≤ 2 ^ 53 := by
  have hlo : 2 ^ n.log2 ≤ n := Nat.log2_self_le h
  have hhi : n < 2 ^ (n.log2 + 1) := Nat.lt_log2_self
  rcases Nat.le_total n.log2 52 with hk | hk
  · -- short of 53 bits: scaled up, and exact
    have hpow : 2 ^ n.log2 * 2 ^ (52 - n.log2) = 2 ^ 52 := by
      rw [← Nat.pow_add, Nat.add_sub_cancel' hk]
    have hpow' : 2 ^ (n.log2 + 1) * 2 ^ (52 - n.log2) = 2 ^ 53 := by
      rw [← Nat.pow_add]
      congr 1
      omega
    rw [significand, Nat.sub_eq_zero_of_le hk, pow_zero, div_round_one]
    refine ⟨?_, ?_⟩
    · rw [← hpow]
      exact Nat.mul_le_mul_right _ hlo
    · rw [← hpow']
      exact Nat.mul_le_mul_right _ hhi.le
  · -- longer: the quotient has 53 bits, and rounding adds one at most
    have hpow : 2 ^ 52 * 2 ^ (n.log2 - 52) = 2 ^ n.log2 := by
      rw [← Nat.pow_add, Nat.add_sub_cancel' hk]
    have hpow' : 2 ^ 53 * 2 ^ (n.log2 - 52) = 2 ^ (n.log2 + 1) := by
      rw [← Nat.pow_add]
      congr 1
      omega
    rw [significand, Nat.sub_eq_zero_of_le hk, pow_zero, mul_one]
    have hquot : n / 2 ^ (n.log2 - 52) < 2 ^ 53 := by
      rw [Nat.div_lt_iff_lt_mul (Nat.two_pow_pos _), hpow']
      exact hhi
    have hquot' : 2 ^ 52 ≤ n / 2 ^ (n.log2 - 52) := by
      rw [Nat.le_div_iff_mul_le (Nat.two_pow_pos _), hpow]
      exact hlo
    exact ⟨hquot'.trans (le_div_round _ _), (div_round_le _ _).trans hquot⟩

/-- **Rounding keeps the order.** Within one binade the significands are in
order; from one to the next the exponent decides, a carry included. -/
theorem round_magnitude_mono {a b : ℕ} (h : a ≤ b) :
    round_magnitude a 1 ≤ round_magnitude b 1 := by
  rcases Nat.eq_zero_or_pos a with rfl | ha
  · simp [round_magnitude]
  · have ha' : a ≠ 0 := Nat.pos_iff_ne_zero.mp ha
    have hb' : b ≠ 0 := Nat.pos_iff_ne_zero.mp (ha.trans_le h)
    rw [round_magnitude_integer ha', round_magnitude_integer hb']
    refine min_le_min_left _ ?_
    have hlog : a.log2 ≤ b.log2 := (Nat.le_log2 hb').mpr ((Nat.log2_self_le ha').trans h)
    rcases Nat.lt_or_eq_of_le hlog with hlt | heq
    · have hsa := (significand_bounds ha').2
      have hsb := (significand_bounds hb').1
      omega
    · rw [heq]
      have hsig : significand a ≤ significand b := by
        rw [significand, significand, heq]
        exact div_round_mono _ (Nat.mul_le_mul_right _ h)
      omega

theorem round_magnitude_le_inf (n : ℕ) : round_magnitude n 1 ≤ inf := by
  rcases Nat.eq_zero_or_pos n with rfl | hn
  · simp [round_magnitude]
  · rw [round_magnitude_integer (Nat.pos_iff_ne_zero.mp hn)]
    exact Nat.min_le_left _ _

theorem round_magnitude_pos {n : ℕ} (h : n ≠ 0) : 0 < round_magnitude n 1 := by
  have hs := (significand_bounds h).1
  rw [round_magnitude_integer h]
  refine lt_min (by decide) ?_
  omega

/-- Up to 53 bits nothing is cut off. -/
theorem significand_exact {n : ℕ} (h : n < 2 ^ 53) : significand n = n * 2 ^ (52 - n.log2) := by
  have hlog : n.log2 ≤ 52 := by
    rcases Nat.eq_zero_or_pos n with rfl | hn
    · decide
    · exact Nat.le_of_lt_succ ((Nat.log2_lt (Nat.pos_iff_ne_zero.mp hn)).mpr h)
  rw [significand, Nat.sub_eq_zero_of_le hlog, pow_zero, div_round_one]

/-- **Up to `2 ^ 53` different integers are different doubles.** -/
theorem round_magnitude_strict {a b : ℕ} (h : a < b) (hb : b ≤ 2 ^ 53) :
    round_magnitude a 1 < round_magnitude b 1 := by
  have hb' : b ≠ 0 := by omega
  rcases Nat.eq_zero_or_pos a with rfl | ha
  · have hzero : round_magnitude 0 1 = 0 := by simp [round_magnitude]
    rw [hzero]
    exact round_magnitude_pos hb'
  · have ha' : a ≠ 0 := Nat.pos_iff_ne_zero.mp ha
    have hsig := significand_exact (h.trans_le hb)
    have hlog : a.log2 ≤ b.log2 := (Nat.le_log2 hb').mpr ((Nat.log2_self_le ha').trans h.le)
    have hlog53 : b.log2 ≤ 53 := Nat.le_of_lt_succ ((Nat.log2_lt hb').mpr (by omega))
    have hbounds := significand_bounds hb'
    have hinf : inf = 2047 * 2 ^ 52 := rfl
    rw [round_magnitude_integer ha', round_magnitude_integer hb']
    suffices hlt : (a.log2 + 1022) * 2 ^ 52 + significand a
        < (b.log2 + 1022) * 2 ^ 52 + significand b by omega
    rcases Nat.lt_or_eq_of_le hlog with hlt | heq
    · -- no carry out of the lower binade
      have hhi : significand a < 2 ^ 53 := by
        have hpow : 2 ^ (a.log2 + 1) * 2 ^ (52 - a.log2) = 2 ^ 53 := by
          rw [← Nat.pow_add]
          congr 1
          omega
        rw [hsig, ← hpow]
        exact Nat.mul_lt_mul_of_pos_right Nat.lt_log2_self (Nat.two_pow_pos _)
      omega
    · have hsmall : b < 2 ^ 53 := by
        have htop : a < 2 ^ 53 := h.trans_le hb
        have hak : a.log2 < 53 := (Nat.log2_lt ha').mpr htop
        exact (Nat.log2_lt hb').mp (heq ▸ hak)
      have hgrow : significand a < significand b := by
        rw [hsig, significand_exact hsmall, heq]
        exact Nat.mul_lt_mul_of_pos_right h (Nat.two_pow_pos _)
      omega

/-! ## Integers as doubles -/

theorem of_magnitude_parts {mag : ℕ} (h : mag ≤ inf) (neg : Bool) :
    (of_magnitude neg mag).sign = neg ∧ (of_magnitude neg mag).magnitude = mag := by
  have hinf : inf < 2 ^ 63 := by decide
  have hlt : mag < 2 ^ 63 := h.trans_lt hinf
  have hbits : (UInt64.ofNat (mag + if neg then 2 ^ 63 else 0)).toNat
      = mag + if neg then 2 ^ 63 else 0 := by
    rw [UInt64.toNat_ofNat']
    refine Nat.mod_eq_of_lt ?_
    split_ifs <;> omega
  rw [sign, magnitude, of_magnitude, hbits]
  cases neg with
  | true => simpa using hlt
  | false => simpa using hlt

/-- The key of a magnitude with a sign. -/
theorem key_of_magnitude {mag : ℕ} (h : mag ≤ inf) (neg : Bool) :
    (of_magnitude neg mag).key = if neg then -(mag : ℤ) else mag := by
  obtain ⟨hsign, hmag⟩ := of_magnitude_parts h neg
  rw [key, hsign, hmag]

theorem not_nan_of_magnitude {mag : ℕ} (h : mag ≤ inf) (neg : Bool) :
    (of_magnitude neg mag).is_nan = false := by
  rw [is_nan, (of_magnitude_parts h neg).2]
  exact decide_eq_false (Nat.not_lt.mpr h)

theorem key_of_int (i : ℤ) :
    (of_int i).key = if i < 0 then -(round_magnitude i.natAbs 1 : ℤ)
      else round_magnitude i.natAbs 1 := by
  rw [of_int, key_of_magnitude (round_magnitude_le_inf _)]
  simp only [decide_eq_true_eq]

theorem not_nan_of_int (i : ℤ) : (of_int i).is_nan = false :=
  not_nan_of_magnitude (round_magnitude_le_inf _) _

/-- **Integers keep their order as doubles.** -/
theorem of_int_mono {i j : ℤ} (h : i ≤ j) : (of_int i).key ≤ (of_int j).key := by
  rw [key_of_int, key_of_int]
  by_cases hi : i < 0
  · by_cases hj : j < 0
    · have hmono := round_magnitude_mono (show j.natAbs ≤ i.natAbs by omega)
      rw [if_pos hi, if_pos hj]
      omega
    · rw [if_pos hi, if_neg hj]
      omega
  · have hmono := round_magnitude_mono (show i.natAbs ≤ j.natAbs by omega)
    rw [if_neg hi, if_neg (by omega)]
    exact_mod_cast hmono

/-- The key of an integer's double tells its bits. -/
theorem of_int_eq_iff (i j : ℤ) : of_int i = of_int j ↔ (of_int i).key = (of_int j).key := by
  refine ⟨fun h => by rw [h], fun h => ?_⟩
  rw [key_of_int, key_of_int] at h
  -- a negative integer is not rounded to zero, so the keys agree in sign
  have hpos : ∀ i : ℤ, i < 0 → 0 < round_magnitude i.natAbs 1 := fun i hi =>
    round_magnitude_pos (by omega)
  by_cases hi : i < 0
  · have hpi := hpos i hi
    by_cases hj : j < 0
    · rw [if_pos hi, if_pos hj] at h
      rw [of_int, of_int, show round_magnitude i.natAbs 1 = round_magnitude j.natAbs 1 by omega]
      simp [hi, hj]
    · rw [if_pos hi, if_neg hj] at h
      omega
  · by_cases hj : j < 0
    · have hpj := hpos j hj
      rw [if_neg hi, if_pos hj] at h
      omega
    · rw [if_neg hi, if_neg hj] at h
      rw [of_int, of_int, show round_magnitude i.natAbs 1 = round_magnitude j.natAbs 1 by omega]
      simp [hi, hj]

/-- **The doubles compare as the integers do**, except for two integers that
have become one double. -/
theorem key_lt_iff {i j : ℤ} (h : i = j ∨ of_int i ≠ of_int j) :
    (of_int i).key < (of_int j).key ↔ i < j := by
  rcases h with rfl | hne
  · exact iff_of_false (lt_irrefl _) (lt_irrefl _)
  · have hkey : (of_int i).key ≠ (of_int j).key := mt (of_int_eq_iff i j).mpr hne
    constructor
    · intro hlt
      by_contra hle
      exact absurd (of_int_mono (not_lt.mp hle)) (not_le.mpr hlt)
    · exact fun hlt => lt_of_le_of_ne (of_int_mono hlt.le) hkey

/-- Which does not happen up to `2 ^ 53`. -/
theorem of_int_exact {i j : ℤ} (hi : i.natAbs ≤ 2 ^ 53) (hj : j.natAbs ≤ 2 ^ 53) (h : i ≠ j) :
    of_int i ≠ of_int j := by
  have hstrict : ∀ {i j : ℤ}, i.natAbs ≤ 2 ^ 53 → j.natAbs ≤ 2 ^ 53 → i < j →
      (of_int i).key < (of_int j).key := by
    intro i j hi hj hlt
    rw [key_of_int, key_of_int]
    by_cases hi0 : i < 0
    · by_cases hj0 : j < 0
      · have := round_magnitude_strict (show j.natAbs < i.natAbs by omega) hi
        rw [if_pos hi0, if_pos hj0]
        omega
      · have := round_magnitude_pos (show i.natAbs ≠ 0 by omega)
        rw [if_pos hi0, if_neg hj0]
        omega
    · have := round_magnitude_strict (show i.natAbs < j.natAbs by omega) hj
      rw [if_neg hi0, if_neg (by omega)]
      exact_mod_cast this
  intro heq
  rw [of_int_eq_iff] at heq
  rcases lt_or_gt_of_ne h with hlt | hgt
  · exact absurd heq (hstrict hi hj hlt).ne
  · exact absurd heq (hstrict hj hi hgt).ne'

/-! ## Integer literals -/

/-- A text that is all digits. -/
theorem take_digits_cons {cs : List Char} {d : ℕ} {ds : List ℕ} (h : take_digits cs = (d :: ds, [])) :
    ∃ c rest, cs = c :: rest ∧ digit c = some d := by
  cases cs with
  | nil => cases h
  | cons c rest =>
    rw [take_digits] at h
    cases hd : digit c with
    | none =>
      rw [hd] at h
      cases h
    | some e =>
      rw [hd] at h
      obtain ⟨rfl, _⟩ := List.cons.inj (congrArg Prod.fst h)
      exact ⟨c, rest, rfl, hd⟩

/-- **A literal of digits alone** is read as the integer it spells, with its
sign. -/
theorem parse_integer {s : String} {neg : Bool} {cs : List Char} {d : ℕ} {ds : List ℕ}
    (hsign : take_sign s.toList = (neg, cs)) (hdigits : take_digits cs = (d :: ds, [])) :
    parse s = some (of_magnitude neg (round_magnitude (decimal (d :: ds)) 1)) := by
  obtain ⟨c, rest, rfl, hd⟩ := take_digits_cons hdigits
  have hdigit : '0' ≤ c ∧ c ≤ '9' := by
    by_contra hnot
    rw [digit, if_neg hnot] at hd
    cases hd
  -- a digit is no capital, and none of the three words begins with one
  have hlower : c.toLower = c := dif_neg fun h =>
    absurd (UInt32.le_trans h.1 hdigit.2) (by decide)
  have hword : ∀ (w : Char) (ws : List Char), '9' < w →
      (c :: rest).map Char.toLower ≠ w :: ws := by
    intro w ws hw heq
    have hhead : c = w := by
      rw [List.map_cons, hlower] at heq
      exact (List.cons.inj heq).1
    exact absurd hdigit.2 (Char.not_le.mpr (hhead ▸ hw))
  have hnumber : parse_number (c :: rest) = some (round_magnitude (decimal (d :: ds)) 1) := by
    rw [parse_number, hdigits]
    simp [parse_exponent]
  simp only [parse, hsign]
  rw [if_neg, if_neg, hnumber]
  · rfl
  · exact hword 'n' ['a', 'n'] (by decide)
  · rintro (h | h)
    · exact hword 'i' ['n', 'f'] (by decide) h
    · exact hword 'i' "nfinity".toList (by decide) h

end F64
