/-
`Csr.lean` -- compressed sparse rows: a ragged array kept as one dense array
and a table of offsets.

The abstract value is a list of rows. The dense array is the rows' `flatten`;
`offset rows i` is where row `i` starts in it, so row `i` is the slice from
`offset rows i` to `offset rows (i + 1)`, and the table has one entry more than
there are rows. Three operations are what such an array is used for, and each
has one lemma: reading a row is a slice ([`slice_flatten`]), adding a row at
the end pushes one offset ([`offsets_append`]), and replacing a row splices the
dense array and shifts every later offset by the change of length
([`splice_flatten`], [`offset_set_add`]). Offsets kept as 32-bit words are shifted
right even where they have wrapped ([`shift_offset`]).

Arrays kept in parallel (keys beside values) are the same rows read through
different projections; their offsets agree because an offset only counts
([`offset_map`]).
-/
import Mathlib.Data.List.Basic
import Spanfall.Lib.Vec

set_option autoImplicit false

namespace Lib.Csr

open Lib.Vec

variable {α β : Type*}

/-- Where row `i` starts in the dense array. -/
def offset (rows : List (List α)) (i : ℕ) : ℕ := (rows.take i).flatten.length

/-- The offsets table: one entry per row and the sentinel. -/
def offsets (rows : List (List α)) : List ℕ :=
  (List.range (rows.length + 1)).map (offset rows)

theorem offset_eq_sum (rows : List (List α)) (i : ℕ) :
    offset rows i = ((rows.take i).map List.length).sum := List.length_flatten

/-- The table depends on the lengths of the rows alone. -/
theorem offsets_congr {rows rows' : List (List α)}
    (h : rows.map List.length = rows'.map List.length) : offsets rows = offsets rows' := by
  have hlen : rows.length = rows'.length := by
    have := congrArg List.length h
    rwa [List.length_map, List.length_map] at this
  rw [offsets, offsets, hlen]
  refine List.map_congr_left fun i _ => ?_
  rw [offset_eq_sum, offset_eq_sum, List.map_take, h, ← List.map_take]

theorem offset_length (rows : List (List α)) :
    offset rows rows.length = rows.flatten.length := by
  simp [offset]

theorem offset_succ {rows : List (List α)} {i : ℕ} (h : i < rows.length) :
    offset rows (i + 1) = offset rows i + rows[i].length := by
  rw [offset, offset, List.take_succ_eq_append_getElem h, List.flatten_append,
    List.length_append, List.flatten_singleton]

theorem offset_le_flatten (rows : List (List α)) (i : ℕ) :
    offset rows i ≤ rows.flatten.length := by
  conv_rhs => rw [← List.take_append_drop i rows, List.flatten_append, List.length_append]
  exact Nat.le_add_right _ _

theorem offset_le_succ (rows : List (List α)) (i : ℕ) : offset rows i ≤ offset rows (i + 1) := by
  by_cases h : i < rows.length
  · rw [offset_succ h]
    exact Nat.le_add_right _ _
  · exact Nat.le_of_eq (by
      rw [offset, offset, List.take_of_length_le (by omega), List.take_of_length_le (by omega)])

theorem offset_mono (rows : List (List α)) {i j : ℕ} (h : i ≤ j) :
    offset rows i ≤ offset rows j :=
  monotone_nat_of_le_succ (offset_le_succ rows) h

/-- An offset only counts, so parallel arrays share their table. -/
theorem offset_map (f : α → β) (rows : List (List α)) (i : ℕ) :
    offset (rows.map (List.map f)) i = offset rows i := by
  simp only [offset, ← List.map_take, List.length_flatten, List.map_map, Function.comp_def,
    List.length_map]

@[simp] theorem offsets_length (rows : List (List α)) :
    (offsets rows).length = rows.length + 1 := by
  simp [offsets]

theorem offsets_getElem? {rows : List (List α)} {i : ℕ} (h : i ≤ rows.length) :
    (offsets rows)[i]? = some (offset rows i) := by
  have hi : i < rows.length + 1 := by omega
  simp [offsets, hi]

/-! ## The three operations -/

/-- A list cut around one of its entries, the shape every proof below works in. -/
theorem eq_append_cons {rows : List (List α)} {i : ℕ} (h : i < rows.length) :
    rows = rows.take i ++ rows[i] :: rows.drop (i + 1) := by
  rw [List.getElem_cons_drop, List.take_append_drop]

theorem flatten_split {rows : List (List α)} {i : ℕ} (h : i < rows.length) :
    rows.flatten = (rows.take i).flatten ++ rows[i] ++ (rows.drop (i + 1)).flatten := by
  conv_lhs => rw [eq_append_cons h]
  simp only [List.flatten_append, List.flatten_cons, List.append_assoc]

/-- The end of a row, counted in the pieces of [`flatten_split`]. -/
theorem offset_succ_split {rows : List (List α)} {i : ℕ} (h : i < rows.length) :
    offset rows (i + 1) = ((rows.take i).flatten ++ rows[i]).length := by
  rw [offset_succ h, List.length_append, offset]

/-- **Reading a row.** -/
theorem slice_flatten {rows : List (List α)} {i : ℕ} (h : i < rows.length) :
    slice rows.flatten (offset rows i) (offset rows (i + 1)) = some rows[i] := by
  rw [slice_eq_some]
  refine ⟨⟨offset_le_succ rows i, offset_le_flatten rows (i + 1)⟩, ?_⟩
  rw [offset_succ_split h, flatten_split h, List.take_left, offset, List.drop_left]

/-- **Replacing a row**, on the dense array. -/
theorem splice_flatten {rows : List (List α)} {i : ℕ} (h : i < rows.length) (row : List α) :
    splice rows.flatten (offset rows i) (offset rows (i + 1)) row
      = some (rows.set i row).flatten := by
  rw [splice_eq_some]
  refine ⟨⟨offset_le_succ rows i, offset_le_flatten rows (i + 1)⟩, ?_⟩
  have htake : rows.flatten.take (offset rows i) = (rows.take i).flatten := by
    rw [flatten_split h, List.append_assoc, offset, List.take_left]
  have hdrop : rows.flatten.drop (offset rows (i + 1)) = (rows.drop (i + 1)).flatten := by
    rw [offset_succ_split h, flatten_split h, List.drop_left]
  rw [htake, hdrop, List.set_eq_take_append_cons_drop, if_pos h]
  simp only [List.flatten_append, List.flatten_cons, List.append_assoc]

/-- **Replacing a row**, on the offsets up to the row itself. -/
theorem offset_set_of_le {rows : List (List α)} {i j : ℕ} (h : j ≤ i) (row : List α) :
    offset (rows.set i row) j = offset rows j := by
  rw [offset, offset, List.take_set, List.set_eq_of_length_le]
  rw [List.length_take]
  omega

/-- **Replacing a row**, on the offsets behind it: each moves by the difference
of the two row lengths, stated without a subtraction. -/
theorem offset_set_add {rows : List (List α)} {i j : ℕ} (h : i < rows.length) (hij : i < j)
    (row : List α) :
    offset (rows.set i row) j + rows[i].length = offset rows j + row.length := by
  have hi : i < (rows.take j).length := by
    rw [List.length_take]
    omega
  have hrow : (rows.take j)[i] = rows[i] := List.getElem_take ..
  have hi' : i < ((rows.take j).set i row).length := by
    rw [List.length_set]
    exact hi
  have hold := congrArg List.length (flatten_split hi)
  have hnew := congrArg List.length (flatten_split hi')
  simp only [List.length_append, List.getElem_set_self, List.take_set_of_le (Nat.le_refl i),
    List.drop_set_of_lt (Nat.lt_add_one i), hrow] at hold hnew
  rw [offset, offset, List.take_set]
  omega

/-- **Replacing a row**, on the whole table, with the entries stored as `f`
stores them: those up to the row stay, and the later ones are shifted by
whatever takes the old entry to the new. -/
theorem offsets_set {γ : Type*} {rows : List (List α)} {i : ℕ} (h : i < rows.length)
    (row : List α) (f : ℕ → γ) (shift : γ → γ)
    (hshift : ∀ j, i < j → shift (f (offset rows j)) = f (offset (rows.set i row) j)) :
    ((offsets rows).map f).take (i + 1) ++ (((offsets rows).map f).drop (i + 1)).map shift
      = (offsets (rows.set i row)).map f := by
  have hlen : (((offsets rows).map f).take (i + 1)).length = i + 1 := by
    rw [List.length_take, List.length_map, offsets_length]
    omega
  refine List.ext_getElem? fun j => ?_
  by_cases hj : j ≤ rows.length
  · rw [List.getElem?_map, offsets_getElem? (by rw [List.length_set]; exact hj)]
    by_cases hij : j ≤ i
    · rw [List.getElem?_append_left (by omega), List.getElem?_take, if_pos (by omega),
        List.getElem?_map, offsets_getElem? hj, offset_set_of_le hij]
    · rw [List.getElem?_append_right (by omega), hlen, List.getElem?_map, List.getElem?_drop,
        List.getElem?_map, show i + 1 + (j - (i + 1)) = j by omega, offsets_getElem? hj]
      exact congrArg some (hshift j (by omega))
  · rw [List.getElem?_eq_none, List.getElem?_eq_none]
    · rw [List.length_map, offsets_length, List.length_set]
      omega
    · rw [List.length_append, hlen, List.length_map, List.length_drop, List.length_map,
        offsets_length]
      omega

/-- The shift of an offset behind the row, taken in signed arithmetic and cast to
a 32-bit word. Both sides are the new offset modulo `2 ^ 32`, so the old one may
have wrapped. -/
theorem shift_offset {rows : List (List α)} {i : ℕ} (h : i < rows.length) (row : List α) {j : ℕ}
    (hij : i < j) :
    UInt32.ofInt (((UInt32.ofNat (offset rows j)).toNat : ℤ)
        + ((row.length : ℤ) - (rows[i].length : ℤ)))
      = UInt32.ofNat (offset (rows.set i row) j) := by
  have hadd := offset_set_add h hij row
  rw [← UInt32.toNat_inj, UInt32.ofInt, UInt32.toNat_ofNat', UInt32.toNat_ofNat',
    UInt32.toNat_ofNat']
  omega

/-- **Adding a row.** -/
theorem offsets_append (rows : List (List α)) (row : List α) :
    offsets (rows ++ [row]) = offsets rows ++ [rows.flatten.length + row.length] := by
  unfold offsets
  rw [List.length_append, List.length_singleton, List.range_succ, List.map_append,
    List.map_singleton]
  congr 1
  · refine List.map_congr_left fun i hi => ?_
    have hle : i ≤ rows.length := by
      have := List.mem_range.mp hi
      omega
    rw [offset, offset, List.take_append_of_le_length hle]
  · have h : rows.length + 1 = (rows ++ [row]).length := by simp
    rw [h, offset_length]
    simp

end Lib.Csr
