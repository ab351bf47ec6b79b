/-
`Vec.lean` -- the `Vec` operations of the Rust standard library that can panic,
on plain lists.

A Rust `Vec` is a list here: capacity and memory are absent. What is kept is
the panic. An operation that panics on a bad index or range returns `none`,
so "the code does not panic here" is the statement that the result is `some`,
and nothing can be read past the end by accident. A plain read `v[i]` is core
Lean's `v[i]?`, which already has this shape.
-/
import Mathlib.Algebra.BigOperators.Group.List.Basic
import Mathlib.Algebra.Group.Action.Defs
import Mathlib.Algebra.Order.BigOperators.Group.List
import Mathlib.Algebra.Order.Ring.Nat
import Mathlib.Data.List.Basic
import Mathlib.Data.List.Forall2

set_option autoImplicit false

namespace Lib.Vec

variable {α : Type*}

/-- `v[i] = x`: writing past the end panics. -/
def setAt (v : List α) (i : ℕ) (x : α) : Option (List α) :=
  if i < v.length then some (v.set i x) else none

/-- `&v[start..stop]`: panics when the range is reversed or runs past the end. -/
def slice (v : List α) (start stop : ℕ) : Option (List α) :=
  if start ≤ stop ∧ stop ≤ v.length then some ((v.take stop).drop start) else none

/-- `v.splice(start..stop, new)`: the range is replaced by `new`, whatever the
two lengths; the range is checked as in [`slice`]. -/
def splice (v : List α) (start stop : ℕ) (new : List α) : Option (List α) :=
  if start ≤ stop ∧ stop ≤ v.length then some (v.take start ++ new ++ v.drop stop) else none

theorem setAt_of_lt {v : List α} {i : ℕ} (x : α) (h : i < v.length) :
    setAt v i x = some (v.set i x) := by
  rw [setAt, if_pos h]

theorem setAt_eq_some {v w : List α} {i : ℕ} {x : α} :
    setAt v i x = some w ↔ i < v.length ∧ w = v.set i x := by
  unfold setAt
  by_cases h : i < v.length <;> simp [h, eq_comm]

/-- Writing what is there. -/
theorem setAt_self {v : List α} {i : ℕ} {x : α} (h : v[i]? = some x) : setAt v i x = some v := by
  obtain ⟨hi, hget⟩ := List.getElem?_eq_some_iff.mp h
  rw [setAt_of_lt _ hi, ← hget, List.set_getElem_self]

theorem slice_eq_some {v w : List α} {start stop : ℕ} :
    slice v start stop = some w
      ↔ (start ≤ stop ∧ stop ≤ v.length) ∧ w = (v.take stop).drop start := by
  unfold slice
  by_cases h : start ≤ stop ∧ stop ≤ v.length <;> simp [h, eq_comm]

theorem splice_eq_some {v w new : List α} {start stop : ℕ} :
    splice v start stop new = some w
      ↔ (start ≤ stop ∧ stop ≤ v.length) ∧ w = v.take start ++ new ++ v.drop stop := by
  unfold splice
  by_cases h : start ≤ stop ∧ stop ≤ v.length <;> simp [h, eq_comm]

/-- A splice adds at most the new entries. -/
theorem splice_length_le {v w new : List α} {start stop : ℕ}
    (h : splice v start stop new = some w) : w.length ≤ v.length + new.length := by
  obtain ⟨⟨h₁, h₂⟩, rfl⟩ := splice_eq_some.mp h
  simp only [List.length_append, List.length_take, List.length_drop]
  omega

/-- Where the entries of a list with one more entry are. -/
theorem getElem?_snoc {v : List α} {x y : α} {i : ℕ} :
    (v ++ [x])[i]? = some y ↔ v[i]? = some y ∨ (i = v.length ∧ x = y) := by
  rw [List.getElem?_append]
  by_cases h : i < v.length
  · rw [if_pos h]
    exact ⟨Or.inl, fun h' => h'.elim id fun e => absurd e.1 (by omega)⟩
  · rw [if_neg h, List.getElem?_eq_none (l := v) (by omega), List.getElem?_singleton]
    by_cases h0 : i - v.length = 0
    · rw [if_pos h0, Option.some.injEq]
      exact ⟨fun e => Or.inr ⟨by omega, e⟩, fun h' => h'.elim nofun And.right⟩
    · rw [if_neg h0]
      exact ⟨nofun, fun h' => h'.elim nofun fun e => absurd e.1 (by omega)⟩

/-- An entry that was not there before is at the end only. -/
theorem getElem?_snoc_of_notMem [DecidableEq α] {v : List α} {x : α} (h : x ∉ v) (y : α) (i : ℕ) :
    (v ++ [x])[i]? = some y ↔ if y = x then v.length = i else v[i]? = some y := by
  rw [getElem?_snoc]
  by_cases hyx : y = x
  · subst hyx
    rw [if_pos rfl]
    exact ⟨fun e => e.elim (fun e => absurd (List.mem_of_getElem? e) h) fun e => e.1.symm,
      fun e => Or.inr ⟨e.symm, rfl⟩⟩
  · rw [if_neg hyx]
    exact ⟨fun e => e.elim (fun e => e) fun e => absurd e.2.symm hyx, Or.inl⟩

/-! ## A run of writes of one value

`for i in is { v[i] = x }`, the loop a patch list is drained with. -/

/-- Writes `x` at every index of `is`, in order. -/
def setAll (v : List α) (is : List ℕ) (x : α) : Option (List α) :=
  is.foldlM (fun v i => setAt v i x) v

/-- The loop succeeds when every index is in range, and then an entry is `x`
exactly when its index was listed. -/
theorem setAll_of_lt {v : List α} {is : List ℕ} (x : α) (h : ∀ i ∈ is, i < v.length) :
    ∃ w, setAll v is x = some w ∧ w.length = v.length
      ∧ ∀ i, w[i]? = if i ∈ is ∧ i < v.length then some x else v[i]? := by
  induction is generalizing v with
  | nil => exact ⟨v, rfl, rfl, by simp⟩
  | cons j is ih =>
    have hj : j < v.length := h j (by simp)
    obtain ⟨w, hw, hlen, hget⟩ := ih (v := v.set j x)
      (fun i hi => by rw [List.length_set]; exact h i (List.mem_cons_of_mem _ hi))
    refine ⟨w, ?_, by rw [hlen, List.length_set], ?_⟩
    · simp only [setAll, List.foldlM_cons, setAt_of_lt x hj] at hw ⊢
      exact hw
    · intro i
      rw [hget i, List.length_set, List.getElem?_set]
      by_cases hi : i ∈ is
      · simp [hi, h i (List.mem_cons_of_mem _ hi)]
      · by_cases hij : j = i
        · subst hij
          simp [hi, hj]
        · have hij' : i ≠ j := fun e => hij e.symm
          simp [hi, hij, hij']

/-- A write that lets an entry pass a filter adds it to what passes. -/
theorem filter_set_perm {p : α → Bool} {v : List α} {i : ℕ} {x y : α} (hx : v[i]? = some x)
    (hout : p x = false) (hin : p y = true) : ((v.set i y).filter p).Perm (y :: v.filter p) := by
  induction v generalizing i with
  | nil => cases hx
  | cons z v ih =>
    cases i with
    | zero =>
      obtain rfl : z = x := Option.some.inj hx
      rw [List.set_cons_zero, List.filter_cons_of_pos hin, List.filter_cons_of_neg (by simp [hout])]
    | succ i =>
      rw [List.set_cons_succ]
      by_cases hz : p z = true
      · rw [List.filter_cons_of_pos hz, List.filter_cons_of_pos hz]
        exact ((ih hx).cons z).trans (.swap y z _)
      · rw [List.filter_cons_of_neg hz, List.filter_cons_of_neg hz]
        exact ih hx

theorem filter_set_of_neg {p : α → Bool} {v : List α} {i : ℕ} {x y : α} (hx : v[i]? = some x)
    (hout : p x = false) (hout' : p y = false) : (v.set i y).filter p = v.filter p := by
  induction v generalizing i with
  | nil => cases hx
  | cons z v ih =>
    cases i with
    | zero =>
      obtain rfl : z = x := Option.some.inj hx
      rw [List.set_cons_zero, List.filter_cons_of_neg (by simp [hout']),
        List.filter_cons_of_neg (by simp [hout])]
    | succ i =>
      rw [List.set_cons_succ, List.filter_cons, List.filter_cons, ih hx]

/-! ## What a write changed

A list beside what it became: the walk over the pairs that looks at nothing but
changes. -/

theorem filterMap_zip_self {β : Type*} {f : α × α → Option β} {v : List α}
    (hsame : ∀ x, f (x, x) = none) : (v.zip v).filterMap f = [] := by
  induction v with
  | nil => rfl
  | cons x v ih => rw [List.zip_cons_cons, List.filterMap_cons_none (hsame x), ih]

theorem filterMap_zip_set {β : Type*} {f : α × α → Option β} {v : List α} {i : ℕ} {x : α}
    (hsame : ∀ x, f (x, x) = none) (hx : v[i]? = some x) (y : α) :
    (v.zip (v.set i y)).filterMap f = (f (x, y)).toList := by
  induction v generalizing i with
  | nil => cases hx
  | cons z v ih =>
    cases i with
    | zero =>
      obtain rfl : z = x := Option.some.inj hx
      rw [List.set_cons_zero, List.zip_cons_cons]
      cases hy : f (z, y) with
      | none => rw [List.filterMap_cons_none hy, filterMap_zip_self hsame]; rfl
      | some b => rw [List.filterMap_cons_some hy, filterMap_zip_self hsame]; rfl
    | succ i =>
      rw [List.set_cons_succ, List.zip_cons_cons, List.filterMap_cons_none (hsame z), ih hx]

/-! ## A sum over the entries -/

/-- Writing one entry moves the sum by that entry. -/
theorem sum_map_set {M : Type*} [AddCommMonoid M] (f : α → M) {v : List α} {i : ℕ} {x : α}
    (h : v[i]? = some x) (y : α) : ((v.set i y).map f).sum + f x = (v.map f).sum + f y := by
  induction v generalizing i with
  | nil => cases h
  | cons z v ih =>
    cases i with
    | zero =>
      obtain rfl : z = x := Option.some.inj h
      simp only [List.set_cons_zero, List.map_cons, List.sum_cons]
      rw [add_right_comm, add_comm (f y), add_right_comm]
    | succ i =>
      have := ih (i := i) h
      simp only [List.set_cons_succ, List.map_cons, List.sum_cons]
      rw [add_assoc, this, add_assoc]

/-- A sum of terms that keep a bound. -/
theorem sum_map_le (f : α → ℕ) {v : List α} {bound : ℕ} (h : ∀ x ∈ v, f x ≤ bound) :
    (v.map f).sum ≤ v.length * bound := by
  have hle := List.sum_le_card_nsmul (v.map f) bound (by
    intro y hy
    obtain ⟨x, hx, rfl⟩ := List.mem_map.mp hy
    exact h x hx)
  rwa [List.length_map, smul_eq_mul] at hle

/-! ## A walk that may panic at every entry -/

theorem mapM_of_forall {β : Type*} {f : α → Option β} {g : α → β} {v : List α}
    (h : ∀ x ∈ v, f x = some (g x)) : v.mapM f = some (v.map g) := by
  induction v with
  | nil => rfl
  | cons x v ih =>
    rw [List.mapM_cons, h x (by simp), ih fun y hy => h y (List.mem_cons_of_mem _ hy)]
    rfl

theorem mapM_isSome {β : Type*} {f : α → Option β} {v : List α} (h : ∀ x ∈ v, (f x).isSome) :
    (v.mapM f).isSome := by
  induction v with
  | nil => rfl
  | cons x v ih =>
    obtain ⟨y, hy⟩ := Option.isSome_iff_exists.mp (h x List.mem_cons_self)
    obtain ⟨w, hw⟩ := Option.isSome_iff_exists.mp (ih fun z hz => h z (List.mem_cons_of_mem _ hz))
    rw [List.mapM_cons, hy, hw]
    rfl

theorem foldlM_isSome {β : Type*} {f : β → α → Option β} {v : List α}
    (h : ∀ b, ∀ x ∈ v, (f b x).isSome) (b : β) : (v.foldlM f b).isSome := by
  induction v generalizing b with
  | nil => rfl
  | cons x v ih =>
    obtain ⟨b', hb'⟩ := Option.isSome_iff_exists.mp (h b x List.mem_cons_self)
    rw [List.foldlM_cons, hb']
    exact ih (fun b y hy => h b y (List.mem_cons_of_mem _ hy)) b'

/-- A test of every entry stops at the first that fails, so it panics only
where a test does. -/
theorem allM_isSome {f : α → Option Bool} {v : List α} (h : ∀ x ∈ v, (f x).isSome) :
    (v.allM f).isSome := by
  induction v with
  | nil => rfl
  | cons x v ih =>
    obtain ⟨b, hb⟩ := Option.isSome_iff_exists.mp (h x List.mem_cons_self)
    rw [List.allM, hb]
    cases b with
    | false => rfl
    | true => exact ih fun y hy => h y (List.mem_cons_of_mem _ hy)

/-- Tests that do not panic are a test of the whole. -/
theorem allM_map_of_forall {β : Type*} {f : α → Option Bool} {k : β → α} {g : β → Bool}
    {v : List β} (h : ∀ x ∈ v, f (k x) = some (g x)) : (v.map k).allM f = some (v.all g) := by
  induction v with
  | nil => rfl
  | cons x v ih =>
    obtain ⟨hx, hv⟩ := List.forall_mem_cons.mp h
    rw [List.map_cons, List.allM, hx, List.all_cons]
    cases g x with
    | false => rfl
    | true => exact ih hv

/-- The second list is tested only where the first passes. -/
theorem allM_append {f : α → Option Bool} (as bs : List α) :
    (as ++ bs).allM f = (as.allM f).bind fun a => if a then bs.allM f else some false := by
  induction as with
  | nil => rfl
  | cons a as ih =>
    rw [List.cons_append, List.allM, List.allM]
    cases f a with
    | none => rfl
    | some b =>
      cases b with
      | false => rfl
      | true => exact ih

/-- A fold over steps that change nothing. -/
theorem foldlM_unchanged {β : Type*} {f : β → α → Option β} {v : List α}
    (h : ∀ x ∈ v, ∀ b, f b x = some b) (b : β) : v.foldlM f b = some b := by
  induction v with
  | nil => rfl
  | cons x v ih =>
    rw [List.foldlM_cons, h x List.mem_cons_self b]
    exact ih fun y hy => h y (List.mem_cons_of_mem _ hy)

/-- A fold that fails more often and else does the same ends the same. -/
theorem foldlM_of_imp {β : Type*} {f g : β → α → Option β}
    (h : ∀ b x c, f b x = some c → g b x = some c) {v : List α} {b c : β}
    (hf : v.foldlM f b = some c) : v.foldlM g b = some c := by
  induction v generalizing b with
  | nil => exact hf
  | cons x v ih =>
    obtain ⟨d, hd, hf⟩ := Option.bind_eq_some_iff.mp hf
    exact Option.bind_eq_some_iff.mpr ⟨d, h b x d hd, ih hf⟩

/-- A loop whose body never panics. -/
theorem foldlM_of_forall {β : Type*} {f : β → α → Option β} {g : β → α → β}
    (h : ∀ b x, f b x = some (g b x)) {v : List α} {b : β} :
    v.foldlM f b = some (v.foldl g b) := by
  induction v generalizing b with
  | nil => rfl
  | cons x v ih =>
    rw [List.foldlM_cons, h, List.foldl_cons]
    exact ih

/-- A loop that reads an entry and then folds it in reads all entries and folds
them in. -/
theorem foldlM_map {β γ : Type*} (f : α → Option β) (g : γ → β → γ) (v : List α) (c : γ) :
    v.foldlM (fun c x => (f x).map (g c)) c = (v.mapM f).map fun w => w.foldl g c := by
  induction v generalizing c with
  | nil => rfl
  | cons x v ih =>
    rw [List.foldlM_cons, List.mapM_cons]
    cases f x with
    | none => rfl
    | some y =>
      simp only [Option.map_some, Option.bind_eq_bind, Option.bind_some, ih]
      cases v.mapM f with
      | none => rfl
      | some w => rfl

/-- A walk that succeeds, taken apart at the head. -/
theorem mapM_cons_eq_some {β : Type*} {f : α → Option β} {x : α} {v : List α} {w : List β} :
    (x :: v).mapM f = some w ↔ ∃ y w', f x = some y ∧ v.mapM f = some w' ∧ w = y :: w' := by
  rw [List.mapM_cons]
  simp only [Option.bind_eq_bind, Option.bind_eq_some_iff, Option.pure_def, Option.some.injEq]
  constructor
  · rintro ⟨y, hy, w', hw', rfl⟩
    exact ⟨y, w', hy, hw', rfl⟩
  · rintro ⟨y, w', hy, hw', rfl⟩
    exact ⟨y, hy, w', hw', rfl⟩

theorem length_of_mapM {β : Type*} {f : α → Option β} {v : List α} {w : List β}
    (h : v.mapM f = some w) : w.length = v.length := by
  induction v generalizing w with
  | nil =>
    obtain rfl : [] = w := Option.some.inj h
    rfl
  | cons x v ih =>
    obtain ⟨y, w', _, hw', rfl⟩ := mapM_cons_eq_some.mp h
    rw [List.length_cons, List.length_cons, ih hw']

theorem isSome_of_mapM {β : Type*} {f : α → Option β} {v : List α} {w : List β}
    (h : v.mapM f = some w) : ∀ x ∈ v, (f x).isSome := by
  induction v generalizing w with
  | nil => simp
  | cons x v ih =>
    obtain ⟨y, w', hy, hw', rfl⟩ := mapM_cons_eq_some.mp h
    intro z hz
    obtain rfl | hz := List.mem_cons.mp hz
    · rw [hy]
      rfl
    · exact ih hw' z hz

/-- The entries of a walk are what its entries yield. -/
theorem mem_of_mapM {β : Type*} {f : α → Option β} {v : List α} {w : List β}
    (h : v.mapM f = some w) {y : β} : y ∈ w ↔ ∃ x ∈ v, f x = some y := by
  induction v generalizing w with
  | nil =>
    obtain rfl : [] = w := Option.some.inj h
    simp
  | cons x v ih =>
    obtain ⟨z, w', hz, hw', rfl⟩ := mapM_cons_eq_some.mp h
    rw [List.mem_cons, ih hw', List.exists_mem_cons_iff, hz, Option.some.injEq, eq_comm]

/-- A field of the results that is known from the arguments. -/
theorem map_eq_of_mapM {β γ : Type*} {f : α → Option β} {g : β → γ} {g' : α → γ} {v : List α}
    {w : List β} (h : v.mapM f = some w) (hfield : ∀ x y, f x = some y → g y = g' x) :
    w.map g = v.map g' := by
  induction v generalizing w with
  | nil =>
    obtain rfl : [] = w := Option.some.inj h
    rfl
  | cons x v ih =>
    obtain ⟨y, w', hy, hw', rfl⟩ := mapM_cons_eq_some.mp h
    rw [List.map_cons, List.map_cons, hfield x y hy, ih hw']

/-- **A walk over the indices**, entry by entry. -/
theorem mapM_range_eq_some {f : ℕ → Option α} {n : ℕ} {v : List α} :
    (List.range n).mapM f = some v
      ↔ v.length = n ∧ ∀ i x, v[i]? = some x → f i = some x := by
  induction n generalizing v with
  | zero =>
    rw [List.range_zero, List.mapM_nil, List.length_eq_zero_iff]
    constructor
    · intro h
      obtain rfl : [] = v := Option.some.inj h
      exact ⟨rfl, nofun⟩
    · rintro ⟨rfl, _⟩
      rfl
  | succ n ih =>
    rw [List.range_succ, List.mapM_append]
    simp only [List.mapM_cons, List.mapM_nil, Option.bind_eq_bind, Option.pure_def]
    constructor
    · intro h
      obtain ⟨w, hw, h⟩ := Option.bind_eq_some_iff.mp h
      obtain ⟨_, hlast, h⟩ := Option.bind_eq_some_iff.mp h
      obtain ⟨x, hx, hlast⟩ := Option.bind_eq_some_iff.mp hlast
      obtain rfl := Option.some.inj hlast
      obtain rfl := Option.some.inj h
      obtain ⟨hlen, hall⟩ := ih.mp hw
      refine ⟨by rw [List.length_append, hlen, List.length_singleton], fun i y hy => ?_⟩
      obtain hy | ⟨rfl, rfl⟩ := getElem?_snoc.mp hy
      · exact hall i y hy
      · rwa [hlen]
    · rintro ⟨hlen, hall⟩
      obtain rfl | ⟨w, x, rfl⟩ := v.eq_nil_or_concat
      · cases hlen
      · rw [List.concat_eq_append] at hlen hall ⊢
        have hw : w.length = n := by simpa using hlen
        have hinit := ih.mpr ⟨hw, fun i y hy => hall i y (getElem?_snoc.mpr (Or.inl hy))⟩
        have hlast := hall n x (getElem?_snoc.mpr (Or.inr ⟨hw.symm, rfl⟩))
        rw [hinit, Option.bind_some, hlast]
        rfl

/-- A walk over the indices of `v` that yields a function of every entry. -/
theorem mapM_range_of_getElem? {β : Type*} {f : ℕ → Option β} {g : α → β} {n : ℕ} {v : List α}
    (hn : v.length = n) (h : ∀ i x, v[i]? = some x → f i = some (g x)) :
    (List.range n).mapM f = some (v.map g) := by
  refine mapM_range_eq_some.mpr ⟨by rw [List.length_map, hn], fun i y hy => ?_⟩
  rw [List.getElem?_map, Option.map_eq_some_iff] at hy
  obtain ⟨x, hx, rfl⟩ := hy
  exact h i x hx

/-- A column that agrees with the rows, row by row, is theirs. -/
theorem eq_map_of_getElem? {β : Type*} {f : α → β} {v : List α} {column : List β}
    (hlen : column.length = v.length)
    (h : ∀ (i : ℕ) (x : α), v[i]? = some x → column[i]? = some (f x)) :
    column = v.map f := by
  refine List.ext_getElem? fun i => ?_
  rw [List.getElem?_map]
  cases hx : v[i]? with
  | some x => exact h i x hx
  | none =>
    rw [List.getElem?_eq_none_iff] at hx
    exact List.getElem?_eq_none (hlen ▸ hx)

/-- What every entry is known to yield at least, the walk yields in all. -/
theorem sum_le_of_mapM {f : α → Option ℕ} {c : α → ℕ} {v : List α} {w : List ℕ}
    (h : v.mapM f = some w) (hc : ∀ x ∈ v, ∀ n, f x = some n → c x ≤ n) :
    (v.map c).sum ≤ w.sum := by
  induction v generalizing w with
  | nil => exact Nat.zero_le _
  | cons x v ih =>
    obtain ⟨n, w', hn, hw', rfl⟩ := mapM_cons_eq_some.mp h
    have hx := hc x List.mem_cons_self n hn
    have hrest := ih hw' fun y hy => hc y (List.mem_cons_of_mem _ hy)
    rw [List.map_cons, List.sum_cons, List.sum_cons]
    exact Nat.add_le_add hx hrest

/-- A walk over the indices that looks every entry up is a walk over the
entries. -/
theorem map_range_getElem? {β : Type*} (f : α → β) (d : β) (v : List α) :
    (List.range v.length).map (fun i => (v[i]?.map f).getD d) = v.map f := by
  refine List.ext_getElem? fun i => ?_
  rw [List.getElem?_map, List.getElem?_map]
  by_cases hi : i < v.length
  · rw [List.getElem?_range hi, List.getElem?_eq_getElem hi]
    simp [hi]
  · rw [List.getElem?_eq_none (by simpa using hi), List.getElem?_eq_none (by omega)]
    rfl

/-! ## Two columns -/

theorem forall₂_getElem? {β : Type*} {R : α → β → Prop} {v : List α} {w : List β}
    (h : List.Forall₂ R v w) (i : ℕ) : Option.Rel R v[i]? w[i]? := by
  induction h generalizing i with
  | nil => exact Option.Rel.none
  | cons hhead _ ih =>
    cases i with
    | zero => exact Option.Rel.some hhead
    | succ i => exact ih i

theorem exists_of_forall₂ {β : Type*} {R : α → β → Prop} {v : List α} {w : List β}
    (h : List.Forall₂ R v w) {i : ℕ} {x : α} (hx : v[i]? = some x) :
    ∃ y, w[i]? = some y ∧ R x y := by
  have hrel := forall₂_getElem? h i
  rw [hx] at hrel
  cases hy : w[i]? with
  | none =>
    rw [hy] at hrel
    cases hrel
  | some y =>
    rw [hy] at hrel
    cases hrel with
    | some hxy => exact ⟨y, rfl, hxy⟩

theorem mem_of_forall₂ {β : Type*} {R : α → β → Prop} {v : List α} {w : List β}
    (h : List.Forall₂ R v w) {y : β} (hy : y ∈ w) : ∃ x ∈ v, R x y := by
  obtain ⟨i, hi⟩ := List.mem_iff_getElem?.mp hy
  obtain ⟨x, hx, hxy⟩ := exists_of_forall₂ h.flip hi
  exact ⟨x, List.mem_of_getElem? hx, hxy⟩

theorem forall₂_set {β : Type*} {R : α → β → Prop} {v : List α} {w : List β} {x : α} {y : β}
    (h : List.Forall₂ R v w) (hxy : R x y) (i : ℕ) : List.Forall₂ R (v.set i x) (w.set i y) := by
  induction h generalizing i with
  | nil => exact .nil
  | cons hhead htail ih =>
    cases i with
    | zero => exact .cons hxy htail
    | succ i => exact .cons hhead (ih i)

end Lib.Vec
