/-
`HashMap.lean` -- the Rust `HashMap` as a finite map, and the order it is
walked in as a parameter.

The map is Mathlib's `Finmap`: two maps with the same lookups are equal, and
nothing about buckets, capacity or hashing is left to observe. What a program
can still observe is the order of `iter()`, which Rust leaves unspecified and
which may change with every insertion. [`IterOrder`] is that choice: for every
map, some enumeration of its entries. A loop that walks a map takes one as an
argument, so a theorem about the loop is a theorem about every order.

`total` adds a weight up over the entries; the sums a program computes while
walking a map are this one, whatever the order was ([`IterOrder.sum_map`]).
-/
import Mathlib.Data.Finmap
import Mathlib.Algebra.BigOperators.Group.Multiset.Basic
import Mathlib.Algebra.BigOperators.Ring.Multiset
import Mathlib.Algebra.Order.Ring.Nat
import Mathlib.Algebra.Order.BigOperators.Group.Multiset
import Mathlib.Data.List.MinMax
import Mathlib.Data.List.Sort

set_option autoImplicit false

/-- `HashMap<α, β>`. -/
abbrev FxHashMap (α β : Type) : Type := Finmap fun _ : α => β

namespace Lib.HashMap

variable {α β : Type}

/-- `len()`. -/
def len (m : FxHashMap α β) : ℕ := m.keys.card

/-- The weight of a map: `f` summed over the entries. -/
def total (f : α → β → ℕ) (m : FxHashMap α β) : ℕ := (m.entries.map fun e => f e.1 e.2).sum

theorem len_eq_total (m : FxHashMap α β) : len m = total (fun _ _ => 1) m := by
  induction m using Finmap.induction_on with
  | H m => simp [len, total, Finmap.keys, Finset.card, Multiset.keys, AList.toFinmap]

theorem total_le_total {f g : α → β → ℕ} {m : FxHashMap α β}
    (h : ∀ e ∈ m.entries, f e.1 e.2 ≤ g e.1 e.2) : total f m ≤ total g m :=
  Multiset.sum_map_le_sum_map _ _ h

theorem total_congr {f g : α → β → ℕ} {m : FxHashMap α β}
    (h : ∀ e ∈ m.entries, f e.1 e.2 = g e.1 e.2) : total f m = total g m := by
  rw [total, total, Multiset.map_congr rfl h]

theorem total_mul (c : ℕ) (f : α → β → ℕ) (m : FxHashMap α β) :
    total (fun a b => c * f a b) m = c * total f m :=
  Multiset.sum_map_mul_left

/-! ## The entries -/

variable [DecidableEq α]

theorem mem_entries {m : FxHashMap α β} {a : α} {b : β} :
    (⟨a, b⟩ : Σ _ : α, β) ∈ m.entries ↔ m.lookup a = some b := by
  induction m using Finmap.induction_on with
  | H m => exact (AList.mem_lookup_iff (a := a) (b := b) (s := m)).symm

theorem mem_iff_lookup {m : FxHashMap α β} {a : α} : a ∈ m ↔ ∃ b, m.lookup a = some b :=
  Finmap.mem_iff

theorem mem_keys {m : FxHashMap α β} {a : α} : a ∈ m.keys ↔ (m.lookup a).isSome := by
  rw [Finmap.mem_keys, mem_iff_lookup, Option.isSome_iff_exists]

theorem lookup_insert (m : FxHashMap α β) (a a' : α) (b : β) :
    (m.insert a b).lookup a' = if a' = a then some b else m.lookup a' := by
  by_cases h : a' = a
  · rw [if_pos h, h, Finmap.lookup_insert]
  · rw [if_neg h, Finmap.lookup_insert_of_ne _ h]

theorem lookup_erase (m : FxHashMap α β) (a a' : α) :
    (m.erase a).lookup a' = if a' = a then none else m.lookup a' := by
  by_cases h : a' = a
  · rw [if_pos h, h, Finmap.lookup_erase]
  · rw [if_neg h, Finmap.lookup_erase_ne h]

/-- Inserting over a key is inserting beside the other keys. -/
theorem erase_insert (m : FxHashMap α β) (a : α) (b : β) :
    (m.erase a).insert a b = m.insert a b :=
  Finmap.ext_lookup fun x => by
    rw [lookup_insert, lookup_insert, lookup_erase]
    by_cases hx : x = a
    · rw [if_pos hx, if_pos hx]
    · rw [if_neg hx, if_neg hx, if_neg hx]

/-- Putting back what was there. -/
theorem insert_lookup {m : FxHashMap α β} {a : α} {b : β} (h : m.lookup a = some b) :
    m.insert a b = m :=
  Finmap.ext_lookup fun x => by
    rw [lookup_insert]
    by_cases hx : x = a
    · rw [if_pos hx, hx, h]
    · rw [if_neg hx]

theorem total_insert (f : α → β → ℕ) (m : FxHashMap α β) (a : α) (b : β) :
    total f (m.insert a b) = f a b + total f (m.erase a) := by
  rw [← erase_insert, total, total, Finmap.entries_insert_of_notMem Finmap.notMem_erase_self,
    Multiset.map_cons, Multiset.sum_cons]

theorem total_erase (f : α → β → ℕ) {m : FxHashMap α β} {a : α} {b : β}
    (h : m.lookup a = some b) : f a b + total f (m.erase a) = total f m := by
  rw [← total_insert, insert_lookup h]

theorem erase_of_notMem {m : FxHashMap α β} {a : α} (h : m.lookup a = none) : m.erase a = m :=
  Finmap.ext_lookup fun x => by
    rw [lookup_erase]
    by_cases hx : x = a
    · rw [if_pos hx, hx, h]
    · rw [if_neg hx]

theorem le_total (f : α → β → ℕ) {m : FxHashMap α β} {a : α} {b : β}
    (h : m.lookup a = some b) : f a b ≤ total f m := by
  rw [← total_erase f h]
  exact Nat.le_add_right _ _

theorem len_erase {m : FxHashMap α β} {a : α} {b : β} (h : m.lookup a = some b) :
    len (m.erase a) + 1 = len m := by
  rw [len_eq_total, len_eq_total, Nat.add_comm]
  exact total_erase (fun _ _ => 1) h

omit [DecidableEq α] in
@[simp] theorem len_empty : len (∅ : FxHashMap α β) = 0 := by
  simp [len]

/-! ## Walking a map -/

/-- The order `iter()` walks a map in: some enumeration of its entries. -/
structure IterOrder (α β : Type) where
  iter : FxHashMap α β → List (Σ _ : α, β)
  coe_iter : ∀ m, (iter m : Multiset (Σ _ : α, β)) = m.entries

omit [DecidableEq α] in
theorem IterOrder.mem_iter (o : IterOrder α β) {m : FxHashMap α β} {e : Σ _ : α, β} :
    e ∈ o.iter m ↔ e ∈ m.entries := by
  rw [← o.coe_iter m, Multiset.mem_coe]

theorem IterOrder.mem_iter_lookup (o : IterOrder α β) {m : FxHashMap α β} {a : α} {b : β} :
    (⟨a, b⟩ : Σ _ : α, β) ∈ o.iter m ↔ m.lookup a = some b := by
  rw [o.mem_iter, mem_entries]

omit [DecidableEq α] in
/-- A sum taken along the walk does not depend on the order. -/
theorem IterOrder.sum_map (o : IterOrder α β) (f : α → β → ℕ) (m : FxHashMap α β) :
    ((o.iter m).map fun e => f e.1 e.2).sum = total f m := by
  rw [total, ← o.coe_iter m, Multiset.map_coe, Multiset.sum_coe]

omit [DecidableEq α] in
theorem IterOrder.length_iter (o : IterOrder α β) (m : FxHashMap α β) :
    (o.iter m).length = len m := by
  rw [len_eq_total, ← o.sum_map]
  simp

/-- Maps that agree at every key up to `f` have the same entries up to `f`. -/
theorem entries_map_eq {γ : Type} {f : β → γ} {m m' : FxHashMap α β}
    (h : ∀ a, (m.lookup a).map f = (m'.lookup a).map f) :
    m.entries.map (fun e => (e.1, f e.2)) = m'.entries.map fun e => (e.1, f e.2) := by
  have nodup : ∀ m : FxHashMap α β, (m.entries.map fun e => (e.1, f e.2)).Nodup := fun m => by
    refine Multiset.Nodup.of_map Prod.fst ?_
    rw [Multiset.map_map]
    exact Multiset.nodup_keys.mpr m.nodupKeys
  have mem : ∀ (m : FxHashMap α β) (a : α) (c : γ),
      (a, c) ∈ m.entries.map (fun e => (e.1, f e.2)) ↔ (m.lookup a).map f = some c := by
    intro m a c
    rw [Multiset.mem_map, Option.map_eq_some_iff]
    constructor
    · rintro ⟨⟨a', b⟩, he, heq⟩
      obtain ⟨rfl, rfl⟩ := Prod.mk.injEq .. ▸ heq
      exact ⟨b, mem_entries.mp he, rfl⟩
    · rintro ⟨b, hb, rfl⟩
      exact ⟨⟨a, b⟩, mem_entries.mpr hb, rfl⟩
  rw [Multiset.Nodup.ext (nodup m) (nodup m')]
  rintro ⟨a, c⟩
  rw [mem, mem, h]

omit [DecidableEq α] in
/-- No key is met twice. -/
theorem IterOrder.keys_nodup (o : IterOrder α β) (m : FxHashMap α β) :
    ((o.iter m).map Sigma.fst).Nodup := by
  have hkeys : (o.iter m : Multiset (Σ _ : α, β)).keys.Nodup := by
    rw [o.coe_iter]
    exact m.nodupKeys.nodup_keys
  exact Multiset.coe_nodup.mp hkeys

/-- Maps with the same keys are walked over the same keys. -/
theorem IterOrder.keys_perm (o o' : IterOrder α β) {m m' : FxHashMap α β}
    (h : ∀ a, (m.lookup a).isSome ↔ (m'.lookup a).isSome) :
    ((o.iter m).map (·.1)).Perm ((o'.iter m').map (·.1)) := by
  have hunit : ∀ a, (m.lookup a).map (fun _ => ()) = (m'.lookup a).map fun _ => () := by
    intro a
    have ha := h a
    generalize m.lookup a = b, m'.lookup a = b' at ha ⊢
    cases b <;> cases b' <;> simp_all
  have hentries := congrArg (Multiset.map Prod.fst) (entries_map_eq hunit)
  rw [Multiset.map_map, Multiset.map_map] at hentries
  have hkeys : m.entries.map (·.1) = m'.entries.map (·.1) := hentries
  rwa [← o.coe_iter m, ← o'.coe_iter m', Multiset.map_coe, Multiset.map_coe,
    Multiset.coe_eq_coe] at hkeys

omit [DecidableEq α] in
/-- A walk in another order finds the same results in another order, and panics
together with the first. -/
theorem mapM_perm {f : α → Option β} {v w : List α} (h : v.Perm w) :
    (v.mapM f).map (Multiset.ofList) = (w.mapM f).map Multiset.ofList := by
  have cons : ∀ (y : β) (o : Option (List β)), (o.bind fun l => some (y :: l)).map Multiset.ofList
      = (o.map Multiset.ofList).map (y ::ₘ ·) := fun y o => by cases o <;> rfl
  induction h with
  | nil => rfl
  | cons x _ ih =>
    rw [List.mapM_cons, List.mapM_cons]
    cases f x with
    | none => rfl
    | some y => exact (cons y _).trans (ih ▸ (cons y _).symm)
  | swap x y l =>
    simp only [List.mapM_cons, Option.bind_eq_bind, Option.pure_def]
    cases f x with
    | none => cases f y <;> rfl
    | some a =>
      cases f y with
      | none => rfl
      | some b =>
        cases l.mapM f with
        | none => rfl
        | some c => exact congrArg some (Multiset.coe_eq_coe.mpr (.swap a b c))
  | trans _ _ ih₁ ih₂ => exact ih₁.trans ih₂

/-- The entries of a list, the lowest rank first. -/
def byRank (rank : α → ℕ) (l : List (Σ _ : α, β)) : List (Σ _ : α, β) :=
  l.insertionSort fun a b => rank a.1 ≤ rank b.1

omit [DecidableEq α] in
theorem byRank_perm (rank : α → ℕ) (l : List (Σ _ : α, β)) : (byRank rank l).Perm l :=
  List.perm_insertionSort _ l

omit [DecidableEq α] in
theorem byRank_eq {rank : α → ℕ} (hrank : Function.Injective rank) {l l' : List (Σ _ : α, β)}
    (hl : l.NodupKeys) (h : l.Perm l') : byRank rank l = byRank rank l' := by
  have htotal : Std.Total fun a b : Σ _ : α, β => rank a.1 ≤ rank b.1 :=
    ⟨fun a b => Nat.le_total _ _⟩
  have htrans : IsTrans (Σ _ : α, β) fun a b => rank a.1 ≤ rank b.1 :=
    ⟨fun a b c => Nat.le_trans⟩
  refine List.Perm.eq_of_pairwise (fun a b ha hb hab hba => ?_)
    (List.pairwise_insertionSort _ l) (List.pairwise_insertionSort _ l')
    ((byRank_perm rank l).trans (h.trans (byRank_perm rank l').symm))
  have ha' := (byRank_perm rank l).mem_iff.mp ha
  have hb' := h.mem_iff.mpr ((byRank_perm rank l').mem_iff.mp hb)
  exact hl.eq_of_fst_eq ha' hb' (hrank (Nat.le_antisymm hab hba))

/-- A walk that can be computed: by rank of the key. -/
def IterOrder.ofRank (rank : α → ℕ) (hrank : Function.Injective rank) : IterOrder α β where
  iter m := m.liftOn (fun l => byRank rank l.entries) fun l _ h => byRank_eq hrank l.nodupKeys h
  coe_iter m := by
    induction m using Finmap.induction_on with
    | H l => exact Quotient.sound (byRank_perm rank l.entries)

end Lib.HashMap
