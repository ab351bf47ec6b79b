/-
`F64.lean` -- IEEE 754 binary64 as far as a program compares, parses and prints
doubles.

A double is its bit pattern, so two doubles are equal as data exactly when the
bits are. The IEEE comparisons are [`F64.eq`], [`F64.lt`] and [`F64.le`]; they
are all false where a NaN is involved, and the two zeros are equal. Everything
that rounds goes through [`F64.round_magnitude`], the nearest double to a
non-negative rational, ties to even: integers, and decimal literals of any
length. Printing follows Rust: the shortest decimal that reads back as the same
double, nearest to it among those, without an exponent.
-/
import Mathlib.Algebra.Order.Ring.Nat
import Mathlib.Data.Nat.Log
import Mathlib.Data.Nat.Notation

set_option autoImplicit false

/-- A double, as its bits. -/
structure F64 where
  bits : UInt64
  deriving DecidableEq

namespace F64

/-- The sign bit. -/
def sign (d : F64) : Bool := decide (2 ^ 63 ≤ d.bits.toNat)

/-- The bits below the sign; read as a number they order the magnitudes. -/
def magnitude (d : F64) : ℕ := d.bits.toNat % 2 ^ 63

/-- The magnitude of infinity. NaNs are above it. -/
def inf : ℕ := 2047 * 2 ^ 52

def is_nan (d : F64) : Bool := decide (inf < d.magnitude)

def of_magnitude (neg : Bool) (mag : ℕ) : F64 := ⟨UInt64.ofNat (mag + if neg then 2 ^ 63 else 0)⟩

/-! ## Comparison -/

/-- The signed magnitude. Both zeros have key zero. -/
def key (d : F64) : ℤ := if d.sign then -(d.magnitude : ℤ) else d.magnitude

/-- `a == b`. -/
def eq (a b : F64) : Bool := !a.is_nan && !b.is_nan && decide (a.key = b.key)

/-- `a < b`. -/
def lt (a b : F64) : Bool := !a.is_nan && !b.is_nan && decide (a.key < b.key)

/-- `a <= b`. -/
def le (a b : F64) : Bool := !a.is_nan && !b.is_nan && decide (a.key ≤ b.key)

/-! ## Rounding -/

/-- `n / d` to the nearest integer, ties to even. -/
def div_round (n d : ℕ) : ℕ :=
  let q := n / d
  let r := n % d
  if d < 2 * r ∨ (2 * r = d ∧ q % 2 = 1) then q + 1 else q

/-- The largest `k` with `2 ^ k ≤ n / d`, for positive `n` and `d`. -/
def log2_ratio (n d : ℕ) : ℤ :=
  let k : ℤ := (n.log2 : ℤ) - d.log2
  if d * 2 ^ k.toNat ≤ n * 2 ^ (-k).toNat then k else k - 1

/-- The magnitude of the double nearest to `n / d`. The significand has 53 bits
and the exponent is at least that of the subnormals; a significand that rounds
up to `2 ^ 53` carries into the exponent field on its own. -/
def round_magnitude (n d : ℕ) : ℕ :=
  if n = 0 then 0
  else
    let e := max (-1074) (log2_ratio n d - 52)
    let q := div_round (n * 2 ^ (-e).toNat) (d * 2 ^ e.toNat)
    min inf ((e + 1074).toNat * 2 ^ 52 + q)

/-- `i as f64`. -/
def of_int (i : ℤ) : F64 := of_magnitude (decide (i < 0)) (round_magnitude i.natAbs 1)

/-! ## Parsing -/

def digit (c : Char) : Option ℕ :=
  if '0' ≤ c ∧ c ≤ '9' then some (c.toNat - '0'.toNat) else none

/-- The digits at the head of the text, and what follows them. -/
def take_digits : List Char → List ℕ × List Char
  | [] => ([], [])
  | c :: cs =>
    match digit c with
    | some d => ((d :: (take_digits cs).1), (take_digits cs).2)
    | none => ([], c :: cs)

def decimal (ds : List ℕ) : ℕ := ds.foldl (fun n d => 10 * n + d) 0

/-- A leading sign, and what follows it. -/
def take_sign : List Char → Bool × List Char
  | '-' :: cs => (true, cs)
  | '+' :: cs => (false, cs)
  | cs => (false, cs)

/-- The exponent part of a literal, which is all that may be left of it. -/
def parse_exponent : List Char → Option ℤ
  | [] => some 0
  | c :: cs =>
    if c = 'e' ∨ c = 'E' then
      let (neg, cs) := take_sign cs
      match take_digits cs with
      | ([], _) => none
      | (ds, []) => some (if neg then -(decimal ds : ℤ) else decimal ds)
      | (_, _ :: _) => none
    else none

/-- A decimal literal without its sign: digits on at least one side of an
optional point, and an optional exponent. -/
def parse_number (cs : List Char) : Option ℕ :=
  let (whole, rest) := take_digits cs
  let (frac, rest) := match rest with
    | '.' :: rest => take_digits rest
    | rest => ([], rest)
  if whole = [] ∧ frac = [] then none
  else do
    let e ← parse_exponent rest
    let shift := e - frac.length
    return round_magnitude (decimal (whole ++ frac) * 10 ^ shift.toNat) (10 ^ (-shift).toNat)

/-- `str::parse::<f64>`. -/
def parse (s : String) : Option F64 :=
  let (neg, cs) := take_sign s.toList
  let word := cs.map Char.toLower
  if word = "inf".toList ∨ word = "infinity".toList then some (of_magnitude neg inf)
  else if word = "nan".toList then some (of_magnitude neg (inf + 2 ^ 51))
  else (parse_number cs).map (of_magnitude neg)

example : parse "-1.5e-3" = some ⟨0xBF589374BC6A7EFA⟩ := by decide +kernel

/-! ## Printing -/

/-- A finite magnitude as a fraction. -/
def ratio (mag : ℕ) : ℕ × ℕ :=
  let e := mag / 2 ^ 52
  let f := mag % 2 ^ 52
  if e = 0 then (f, 2 ^ 1074) else ((2 ^ 52 + f) * 2 ^ (e - 1075), 2 ^ (1075 - e))

/-- The `p` with `10 ^ (p - 1) ≤ n / d < 10 ^ p`. -/
def digits_before_point (n d : ℕ) : ℤ :=
  if d ≤ n then (Nat.log 10 (n / d) : ℤ) + 1 else 1 - (Nat.clog 10 ((d + n - 1) / n) : ℤ)

/-- The shortest digits that read back as `mag`, from `k` digits up, and the
power of ten they are scaled by. -/
def shortest_from (mag : ℕ) : ℕ → ℕ → ℕ × ℤ
  | 0, k =>
    let (n, d) := ratio mag
    let shift := (k : ℤ) - digits_before_point n d
    (n * 10 ^ shift.toNat / (d * 10 ^ (-shift).toNat), -shift)
  | more + 1, k =>
    let (n, d) := ratio mag
    let shift := (k : ℤ) - digits_before_point n d
    let a := n * 10 ^ shift.toNat
    let b := d * 10 ^ (-shift).toNat
    let lo := a / b
    let reads_back := fun c =>
      round_magnitude (c * 10 ^ (-shift).toNat) (10 ^ shift.toNat) = mag
    if reads_back lo ∧ (¬reads_back (lo + 1) ∨ 2 * (a % b) < b) then (lo, -shift)
    else if reads_back (lo + 1) then (lo + 1, -shift)
    else shortest_from mag more (k + 1)

/-- A decimal without an exponent, and without trailing zeros behind the
point. -/
def positional (digits : ℕ) (scale : ℤ) : String :=
  if 0 ≤ scale then toString (digits * 10 ^ scale.toNat)
  else
    let places := (-scale).toNat
    let frac := (toString (digits % 10 ^ places)).toList
    let padded := List.replicate (places - frac.length) '0' ++ frac
    let trimmed := (padded.reverse.dropWhile (· = '0')).reverse
    if trimmed = [] then toString (digits / 10 ^ places)
    else toString (digits / 10 ^ places) ++ "." ++ String.ofList trimmed

/-- `f64::to_string`. -/
def to_string (d : F64) : String :=
  if d.is_nan then "NaN"
  else
    let body :=
      if d.magnitude = inf then "inf"
      else if d.magnitude = 0 then "0"
      else
        let (digits, scale) := shortest_from d.magnitude 17 1
        positional digits scale
    if d.sign then "-" ++ body else body

example : (of_int 9007199254740993).to_string = "9007199254740992" := by decide +kernel

end F64
