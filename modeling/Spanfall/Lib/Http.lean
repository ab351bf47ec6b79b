/-
`Http.lean` -- the bytes of an HTTP/1.1 response, as a reader finds its way in
them.

The head ends at the first empty line ([`head_end`]), which is where the sender has
put it if no line of the head is empty ([`head_end_framed`]). Of a response that
breaks off, the head is found as soon as all of it is there and not before
([`head_end_take`]). The first line of the head comes back as it was sent, if it was
ASCII, whatever bytes the lines behind it have ([`first_line_head`]).
-/
import Mathlib.Data.List.Basic
import Spanfall.Lib.Utf8

set_option autoImplicit false

namespace Lib.Http

open Lib.Utf8

/-- The index of the first empty line's line end: `\r\n\r\n`. -/
def head_end : List UInt8 → Option ℕ
  | [] => none
  | b :: rest =>
    if (b :: rest).take 4 = [13, 10, 13, 10] then some 0 else (head_end rest).map (· + 1)

/-- The head of a response: its first line and the fields. -/
def head (first : List UInt8) (fields : List (List UInt8)) : List UInt8 :=
  first ++ fields.flatMap fun field => 13 :: 10 :: field

/-- A response: the head, an empty line, the body. -/
def framed (first : List UInt8) (fields : List (List UInt8)) (body : List UInt8) : List UInt8 :=
  head first fields ++ 13 :: 10 :: 13 :: 10 :: body

/-- A line has no line end in it. -/
def Line (line : List UInt8) : Prop := 13 ∉ line ∧ 10 ∉ line

instance (line : List UInt8) : Decidable (Line line) :=
  inferInstanceAs (Decidable (13 ∉ line ∧ 10 ∉ line))

variable {first rest body : List UInt8} {fields : List (List UInt8)} {k n : ℕ}

/-! ## Where the head ends -/

theorem head_end_short (h : rest.length < 4) : head_end rest = none := by
  induction rest with
  | nil => rfl
  | cons b rest ih =>
    have hne : (b :: rest).take 4 ≠ [13, 10, 13, 10] := fun he => by
      have hlen := congrArg List.length he
      rw [List.length_take, Nat.min_eq_right (Nat.le_of_lt h)] at hlen
      exact absurd hlen (Nat.ne_of_lt h)
    rw [head_end, if_neg hne, ih (Nat.lt_of_succ_lt h)]
    rfl

/-- Bytes without a carriage return are walked over. -/
theorem head_end_append {line : List UInt8} (hline : 13 ∉ line) (h : head_end rest = some k) :
    head_end (line ++ rest) = some (line.length + k) := by
  induction line with
  | nil => rw [List.nil_append, h, List.length_nil, Nat.zero_add]
  | cons b line ih =>
    have hb : b ≠ 13 := fun e => hline (e ▸ List.mem_cons_self)
    have hne : (b :: (line ++ rest)).take 4 ≠ [13, 10, 13, 10] := fun he => hb (List.cons.inj he).1
    rw [List.cons_append, head_end, if_neg hne, ih fun hin => hline (List.mem_cons_of_mem b hin)]
    rw [Option.map_some, List.length_cons, Nat.add_right_comm]

/-- So is a line end with a line behind it. -/
theorem head_end_field {b : UInt8} (hb : b ≠ 13) (h : head_end (b :: rest) = some k) :
    head_end (13 :: 10 :: b :: rest) = some (k + 2) := by
  have hcr : (13 :: 10 :: b :: rest).take 4 ≠ [13, 10, 13, 10] := fun he =>
    hb (List.cons.inj (List.cons.inj (List.cons.inj he).2).2).1
  have hlf : (10 :: b :: rest).take 4 ≠ [13, 10, 13, 10] := fun he =>
    absurd (List.cons.inj he).1 (by decide)
  rw [head_end, if_neg hcr, head_end, if_neg hlf, h]
  rfl

/-- **The head ends where the sender has ended it.** -/
theorem head_end_framed (hfirst : Line first)
    (hfields : ∀ field ∈ fields, Line field ∧ field ≠ []) :
    head_end (framed first fields body) = some (head first fields).length := by
  have htail : head_end (fields.flatMap (fun field => 13 :: 10 :: field)
      ++ 13 :: 10 :: 13 :: 10 :: body)
        = some (fields.flatMap fun field => 13 :: 10 :: field).length := by
    induction fields with
    | nil =>
      have hpattern : (13 :: 10 :: 13 :: 10 :: body).take 4 = [13, 10, 13, 10] := rfl
      rw [List.flatMap_nil, List.nil_append, head_end, if_pos hpattern]
      rfl
    | cons field fields ih =>
      obtain ⟨hline, hne⟩ := hfields field List.mem_cons_self
      have hrest := head_end_append hline.1 (ih fun f hf => hfields f (List.mem_cons_of_mem field hf))
      obtain ⟨b, line, rfl⟩ := List.exists_cons_of_ne_nil hne
      have hb : b ≠ 13 := fun e => hline.1 (e ▸ List.mem_cons_self)
      rw [List.cons_append] at hrest
      rw [List.flatMap_cons, List.append_assoc]
      refine (head_end_field hb hrest).trans (congrArg some ?_)
      simp only [List.length_cons, List.length_append]
      omega
  rw [framed, head, List.append_assoc, head_end_append hfirst.1 htail, List.length_append]

/-- **A response that breaks off.** -/
theorem head_end_take {bytes : List UInt8} (h : head_end bytes = some k) :
    head_end (bytes.take n) = if k + 4 ≤ n then some k else none := by
  induction bytes generalizing k n with
  | nil => cases h
  | cons b rest ih =>
    rw [head_end] at h
    by_cases hpattern : (b :: rest).take 4 = [13, 10, 13, 10]
    · rw [if_pos hpattern, Option.some.injEq] at h
      subst h
      by_cases hn : 4 ≤ n
      · obtain ⟨n, rfl⟩ := Nat.exists_eq_add_of_le' hn
        have htake : ((b :: rest).take (n + 4)).take 4 = [13, 10, 13, 10] := by
          rw [List.take_take, Nat.min_eq_left (Nat.le_add_left 4 n), hpattern]
        rw [if_pos (by omega)]
        rw [List.take_succ_cons] at htake ⊢
        rw [head_end, if_pos htake]
      · rw [if_neg (by omega)]
        refine head_end_short ?_
        rw [List.length_take]
        omega
    · rw [if_neg hpattern] at h
      obtain ⟨k, hk, rfl⟩ := Option.map_eq_some_iff.mp h
      cases n with
      | zero =>
        rw [List.take_zero, if_neg (by omega)]
        rfl
      | succ n =>
        have htake : ((b :: rest).take (n + 1)).take 4 ≠ [13, 10, 13, 10] := fun he => by
          have hlen := congrArg List.length he
          rw [List.take_take, List.length_take] at hlen
          rw [List.take_take, show min 4 (n + 1) = 4 by simp at hlen; omega] at he
          exact hpattern he
        rw [List.take_succ_cons] at htake ⊢
        rw [head_end, if_neg htake, ih hk]
        by_cases hn : k + 4 ≤ n
        · rw [if_pos hn, if_pos (by omega)]
          rfl
        · rw [if_neg hn, if_neg (by omega)]
          rfl

/-! ## Bytes as text -/

/-- How many bytes follow the first byte of a character, and between which bounds the
first of them is. -/
def follow (b : UInt8) : Option (ℕ × UInt8 × UInt8) :=
  if 0xC2 ≤ b ∧ b ≤ 0xDF then some (1, 0x80, 0xBF)
  else if b = 0xE0 then some (2, 0xA0, 0xBF)
  else if b = 0xED then some (2, 0x80, 0x9F)
  else if 0xE1 ≤ b ∧ b ≤ 0xEF then some (2, 0x80, 0xBF)
  else if b = 0xF0 then some (3, 0x90, 0xBF)
  else if b = 0xF4 then some (3, 0x80, 0x8F)
  else if 0xF1 ≤ b ∧ b ≤ 0xF3 then some (3, 0x80, 0xBF)
  else none

/-- As many of the bytes that should follow as do. -/
def following : ℕ → UInt8 → UInt8 → List UInt8 → List UInt8
  | n + 1, low, high, b :: rest =>
    if low ≤ b ∧ b ≤ high then b :: following n 0x80 0xBF rest else []
  | _, _, _, _ => []

/-- The character of a first byte and the `n` bytes behind it. -/
def compose (b : UInt8) (n : ℕ) (rest : List UInt8) : Char :=
  Char.ofNat (rest.foldl (fun value c => value * 64 + c.toNat % 64) (b.toNat % 2 ^ (6 - n)))

/-- `String::from_utf8_lossy`: what begins a character and does not end it is one
replacement character, and so is a byte that begins none. Every step takes a byte at
least, so as many steps as there are bytes are enough. -/
def lossy : ℕ → List UInt8 → List Char
  | fuel + 1, b :: rest =>
    if b.toNat < 128 then char_of b :: lossy fuel rest
    else
      match follow b with
      | none => '\uFFFD' :: lossy fuel rest
      | some (n, low, high) =>
        let tail := following n low high rest
        (if tail.length = n then compose b n tail else '\uFFFD')
          :: lossy fuel (rest.drop tail.length)
  | _, _ => []

def from_utf8_lossy (bytes : List UInt8) : List Char := lossy bytes.length bytes

/-- `lines().next().unwrap_or("")`: a carriage return in front of the line feed goes with it. -/
def first_line (text : List Char) : List Char :=
  if '\n' ∈ text then
    let line := text.takeWhile fun c => decide (c ≠ '\n')
    if line.getLast? = some '\r' then line.dropLast else line
  else text

theorem from_utf8_lossy_ascii {line : List UInt8} (h : ∀ b ∈ line, b.toNat < 128)
    (rest : List UInt8) :
    from_utf8_lossy (line ++ rest) = line.map char_of ++ from_utf8_lossy rest := by
  induction line with
  | nil => rfl
  | cons b line ih =>
    have htail := ih fun c hc => h c (List.mem_cons_of_mem b hc)
    rw [from_utf8_lossy] at htail ⊢
    rw [List.cons_append, List.length_cons, lossy, if_pos (h b List.mem_cons_self), htail]
    rfl

theorem char_of_eq_iff {b : UInt8} (h : b.toNat < 128) :
    (char_of b = '\n' ↔ b = 10) ∧ (char_of b = '\r' ↔ b = 13) := by
  have hall : ∀ n < 128, (char_of (UInt8.ofNat n) = '\n' ↔ UInt8.ofNat n = 10)
      ∧ (char_of (UInt8.ofNat n) = '\r' ↔ UInt8.ofNat n = 13) := by decide +kernel
  have hb := hall b.toNat h
  rwa [UInt8.ofNat_toNat] at hb

/-- **The first line comes back.** -/
theorem first_line_head (hfirst : Line first) (hascii : ∀ b ∈ first, b.toNat < 128) :
    first_line (from_utf8_lossy (head first fields)) = first.map char_of := by
  have hnone : ∀ c ∈ first.map char_of, c ≠ '\n' ∧ c ≠ '\r' := fun c hc => by
    obtain ⟨b, hb, rfl⟩ := List.mem_map.mp hc
    obtain ⟨hlf, hcr⟩ := char_of_eq_iff (hascii b hb)
    exact ⟨fun e => hfirst.2 (hlf.mp e ▸ hb), fun e => hfirst.1 (hcr.mp e ▸ hb)⟩
  have hnot : '\n' ∉ first.map char_of := fun hin => (hnone _ hin).1 rfl
  rw [head, from_utf8_lossy_ascii hascii]
  cases fields with
  | nil =>
    have hempty : from_utf8_lossy (List.flatMap (fun field => 13 :: 10 :: field) []) = [] := rfl
    rw [hempty, List.append_nil, first_line, if_neg hnot]
  | cons field fields =>
    -- the line end of the first field
    have hcrlf : ∀ b ∈ ([13, 10] : List UInt8), b.toNat < 128 :=
      List.forall_mem_cons.mpr ⟨by decide, List.forall_mem_singleton.mpr (by decide)⟩
    have htail : from_utf8_lossy ([13, 10]
        ++ (field ++ fields.flatMap fun field => 13 :: 10 :: field))
          = '\r' :: '\n' :: from_utf8_lossy
            (field ++ fields.flatMap fun field => 13 :: 10 :: field) :=
      from_utf8_lossy_ascii hcrlf _
    have htake : (first.map char_of ++ '\r' :: '\n' :: from_utf8_lossy
        (field ++ fields.flatMap fun field => 13 :: 10 :: field)).takeWhile
          (fun c => decide (c ≠ '\n')) = first.map char_of ++ ['\r'] := by
      rw [List.takeWhile_append_of_pos fun c hc => decide_eq_true (hnone c hc).1]
      rfl
    have hflat : List.flatMap (fun field => 13 :: 10 :: field) (field :: fields)
        = [13, 10] ++ (field ++ fields.flatMap fun field => 13 :: 10 :: field) := rfl
    rw [hflat, htail, first_line, if_pos (by simp), htake]
    dsimp only
    rw [List.getLast?_concat, if_pos rfl, List.dropLast_concat]

end Lib.Http
