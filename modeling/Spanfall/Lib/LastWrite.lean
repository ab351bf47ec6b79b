/-
`LastWrite.lean` -- keyed writes: what a table holds after a list of writes,
when a write either adds a row or replaces the row with its key.

Two policies on one list of writes. [`lastWrites`] replaces the row in place,
so a row keeps the position of its first write and the value of its last one.
[`firstWrites`] ignores every write but the first. Both have the same keys, the
distinct keys written in order of first appearance, which is core Lean's
`eraseDups` of the keys ([`lastWrites_keys`], [`firstWrites_keys`]). A row is
then determined by its key: it is the last, respectively the first, write with
that key ([`lastWrites_getElem?`], [`firstWrites_getElem?`]), so replaying
writes that are already in changes nothing ([`lastWrites_replay`],
[`firstWrites_absorb`]). Where no key is written twice both policies keep the
writes as they are.
-/
import Mathlib.Data.List.Nodup
import Mathlib.Data.List.Induction
import Mathlib.Data.Option.Basic

set_option autoImplicit false

namespace Lib.LastWrite

variable {α κ : Type*} [DecidableEq κ]

/-! ## Distinct elements in order of first appearance -/

theorem eraseDups_snoc (ks : List κ) (k : κ) :
    (ks ++ [k]).eraseDups = if k ∈ ks then ks.eraseDups else ks.eraseDups ++ [k] := by
  rw [List.eraseDups_append]
  by_cases h : k ∈ ks
  · have : [k].removeAll ks = [] := by simp [List.removeAll, h]
    rw [this, if_pos h]
    simp
  · have : [k].removeAll ks = [k] := by simp [List.removeAll, h]
    rw [this, if_neg h]
    simp [List.eraseDups_cons]

theorem nodup_eraseDups (ks : List κ) : ks.eraseDups.Nodup := by
  induction ks using List.reverseRecOn with
  | nil => simp
  | append_singleton ks j ih =>
    rw [eraseDups_snoc]
    by_cases h : j ∈ ks
    · rwa [if_pos h]
    · rw [if_neg h, List.nodup_append]
      refine ⟨ih, by simp, ?_⟩
      intro a ha b hb hab
      rw [List.mem_singleton] at hb
      exact h (List.mem_eraseDups.mp (by rwa [hab, hb] at ha))

/-- Distinct elements are kept as they are. -/
theorem eraseDups_of_nodup {ks : List κ} (h : ks.Nodup) : ks.eraseDups = ks := by
  induction ks using List.reverseRecOn with
  | nil => rfl
  | append_singleton ks k ih =>
    have hk : k ∉ ks := fun hin =>
      List.disjoint_of_nodup_append h hin (List.mem_singleton_self k)
    rw [eraseDups_snoc, if_neg hk, ih h.of_append_left]

/-- More elements only add to the end. -/
theorem eraseDups_initial (ks js : List κ) : ks.eraseDups <+: (ks ++ js).eraseDups := by
  rw [List.eraseDups_append]
  exact List.prefix_append _ _

/-- Elements already there add nothing. -/
theorem eraseDups_absorb {ks js : List κ} (h : ∀ j ∈ js, j ∈ ks) :
    (ks ++ js).eraseDups = ks.eraseDups := by
  rw [List.eraseDups_append]
  have : js.removeAll ks = [] := by simpa [List.removeAll] using h
  rw [this]
  simp

omit [DecidableEq κ] in
/-- A list without repetitions has one index for each of its elements. -/
theorem index_unique {ks : List κ} (hnd : ks.Nodup) {i j : ℕ} {k : κ} (hi : ks[i]? = some k)
    (hj : ks[j]? = some k) : i = j := by
  have hlt := (List.getElem?_eq_some_iff.mp hi).1
  exact (List.getElem?_inj hlt hnd).mp (hi.trans hj.symm)

/-! ## The two policies -/

variable (key : α → κ)

/-- Replace the row with `x`'s key, or add `x` behind the others. -/
def upsert (rows : List α) (x : α) : List α :=
  match rows.findIdx? (fun r => decide (key r = key x)) with
  | some i => rows.set i x
  | none => rows ++ [x]

/-- The rows after the writes `xs`, each replacing the row with its key. -/
def lastWrites (xs : List α) : List α := xs.foldl (upsert key) []

/-- Add `x` unless its key is there. -/
def keepFirst (rows : List α) (x : α) : List α :=
  if key x ∈ rows.map key then rows else rows ++ [x]

/-- The rows after the writes `xs`, each ignored if its key is there. -/
def firstWrites (xs : List α) : List α := xs.foldl (keepFirst key) []

variable {key}

@[simp] theorem lastWrites_nil : lastWrites key [] = [] := rfl

@[simp] theorem firstWrites_nil : firstWrites key [] = [] := rfl

theorem lastWrites_snoc (xs : List α) (x : α) :
    lastWrites key (xs ++ [x]) = upsert key (lastWrites key xs) x := by
  simp [lastWrites]

theorem firstWrites_snoc (xs : List α) (x : α) :
    firstWrites key (xs ++ [x]) = keepFirst key (firstWrites key xs) x := by
  simp [firstWrites]

theorem upsert_of_notMem {rows : List α} {x : α} (h : key x ∉ rows.map key) :
    upsert key rows x = rows ++ [x] := by
  have hnone : rows.findIdx? (fun r => decide (key r = key x)) = none := by
    rw [List.findIdx?_eq_none_iff]
    intro r hr
    simp only [decide_eq_false_iff_not]
    exact fun e => h (e ▸ List.mem_map_of_mem hr)
  rw [upsert, hnone]

/-- With distinct keys there is only one row to replace. -/
theorem upsert_of_getElem? {rows : List α} {x : α} {i : ℕ} (hnd : (rows.map key).Nodup)
    (h : (rows.map key)[i]? = some (key x)) : upsert key rows x = rows.set i x := by
  obtain ⟨hi, hxi⟩ := List.getElem?_eq_some_iff.mp h
  rw [List.length_map] at hi
  have hsome : rows.findIdx? (fun r => decide (key r = key x)) = some i := by
    rw [List.findIdx?_eq_some_iff_getElem]
    refine ⟨hi, by simpa using hxi, fun j hji => ?_⟩
    have hj : j < (rows.map key).length := by
      rw [List.length_map]
      omega
    have hne : (rows.map key)[j] ≠ (rows.map key)[i] := by
      intro e
      have := (List.Nodup.getElem_inj_iff hnd).mp e
      omega
    simpa [hxi] using hne
  rw [upsert, hsome]

/-- The keys after an upsert: unchanged, or with the new key behind them. -/
theorem upsert_keys {rows : List α} (x : α) (hnd : (rows.map key).Nodup) :
    (upsert key rows x).map key
      = if key x ∈ rows.map key then rows.map key else rows.map key ++ [key x] := by
  by_cases h : key x ∈ rows.map key
  · obtain ⟨i, hi⟩ := List.mem_iff_getElem?.mp h
    rw [if_pos h, upsert_of_getElem? hnd hi, List.map_set]
    obtain ⟨hlt, heq⟩ := List.getElem?_eq_some_iff.mp hi
    rw [← heq, List.set_getElem_self]
  · rw [if_neg h, upsert_of_notMem h, List.map_append, List.map_singleton]

theorem lastWrites_keys (xs : List α) :
    (lastWrites key xs).map key = (xs.map key).eraseDups := by
  induction xs using List.reverseRecOn with
  | nil => simp
  | append_singleton xs x ih =>
    have hnd : ((lastWrites key xs).map key).Nodup := ih ▸ nodup_eraseDups _
    rw [lastWrites_snoc, upsert_keys x hnd, ih, List.map_append, List.map_singleton,
      eraseDups_snoc]
    simp only [List.mem_eraseDups]

theorem firstWrites_keys (xs : List α) :
    (firstWrites key xs).map key = (xs.map key).eraseDups := by
  induction xs using List.reverseRecOn with
  | nil => simp
  | append_singleton xs x ih =>
    rw [firstWrites_snoc, keepFirst, ih, List.map_append, List.map_singleton, eraseDups_snoc]
    simp only [List.mem_eraseDups]
    by_cases h : key x ∈ xs.map key
    · rw [if_pos h, if_pos h, ih]
    · rw [if_neg h, if_neg h, List.map_append, ih, List.map_singleton]

theorem lastWrites_nodup (xs : List α) : ((lastWrites key xs).map key).Nodup := by
  rw [lastWrites_keys]
  exact nodup_eraseDups _

/-! ## A row is determined by its key -/

/-- The last write with key `k`. -/
def lastWith (key : α → κ) (xs : List α) (k : κ) : Option α :=
  xs.findRev? fun x => decide (key x = k)

/-- The first write with key `k`. -/
def firstWith (key : α → κ) (xs : List α) (k : κ) : Option α :=
  xs.find? fun x => decide (key x = k)

theorem lastWith_append (xs ys : List α) (k : κ) :
    lastWith key (xs ++ ys) k = (lastWith key ys k).or (lastWith key xs k) := by
  simp only [lastWith, List.findRev?_eq_find?_reverse, List.reverse_append, List.find?_append]

theorem lastWith_snoc (xs : List α) (x : α) (k : κ) :
    lastWith key (xs ++ [x]) k = if key x = k then some x else lastWith key xs k := by
  rw [lastWith_append]
  by_cases h : key x = k <;> simp [lastWith, List.findRev?, h]

theorem firstWith_snoc (xs : List α) (x : α) (k : κ) :
    firstWith key (xs ++ [x]) k
      = (firstWith key xs k).or (if key x = k then some x else none) := by
  by_cases h : key x = k <;> simp [firstWith, List.find?_append, h]

theorem mem_of_lastWith {xs : List α} {k : κ} {x : α} (h : lastWith key xs k = some x) :
    x ∈ xs := by
  rw [lastWith, List.findRev?_eq_find?_reverse] at h
  exact List.mem_reverse.mp (List.mem_of_find?_eq_some h)

theorem lastWith_isSome {xs : List α} {k : κ} :
    (lastWith key xs k).isSome ↔ k ∈ xs.map key := by
  simp [lastWith, List.findRev?_eq_find?_reverse]

theorem firstWith_isSome {xs : List α} {k : κ} :
    (firstWith key xs k).isSome ↔ k ∈ xs.map key := by
  simp [firstWith]

theorem lastWrites_getElem? {xs : List α} {i : ℕ} {r : α} (h : (lastWrites key xs)[i]? = some r) :
    lastWith key xs (key r) = some r := by
  induction xs using List.reverseRecOn generalizing i r with
  | nil => simp at h
  | append_singleton xs x ih =>
    rw [lastWrites_snoc] at h
    rw [lastWith_snoc]
    by_cases hx : key x ∈ (lastWrites key xs).map key
    · -- the key is in: row `j` is replaced, the others keep their last write
      obtain ⟨j, hj⟩ := List.mem_iff_getElem?.mp hx
      rw [upsert_of_getElem? (lastWrites_nodup xs) hj, List.getElem?_set] at h
      by_cases hji : j = i
      · rw [if_pos hji] at h
        have hr : x = r := by
          split at h
          · exact Option.some.inj h
          · cases h
        rw [hr, if_pos rfl]
      · rw [if_neg hji] at h
        have hne : key x ≠ key r := by
          intro e
          have hi : ((lastWrites key xs).map key)[i]? = some (key x) := by
            rw [List.getElem?_map, h, e]
            rfl
          exact hji (index_unique (lastWrites_nodup xs) hj hi)
        rw [if_neg hne]
        exact ih h
    · -- the key is new: its row is the last one
      rw [upsert_of_notMem hx] at h
      rcases List.mem_append.mp (List.mem_of_getElem? h) with hr | hr
      · have hne : key x ≠ key r := fun e => hx (e ▸ List.mem_map_of_mem hr)
        rw [if_neg hne]
        obtain ⟨j, hj⟩ := List.mem_iff_getElem?.mp hr
        exact ih hj
      · rw [List.mem_singleton.mp hr, if_pos rfl]

theorem mem_of_mem_lastWrites {xs : List α} {r : α} (h : r ∈ lastWrites key xs) : r ∈ xs := by
  obtain ⟨i, hi⟩ := List.mem_iff_getElem?.mp h
  exact mem_of_lastWith (lastWrites_getElem? hi)

theorem firstWrites_getElem? {xs : List α} {i : ℕ} {r : α}
    (h : (firstWrites key xs)[i]? = some r) : firstWith key xs (key r) = some r := by
  induction xs using List.reverseRecOn generalizing i r with
  | nil => simp at h
  | append_singleton xs x ih =>
    rw [firstWrites_snoc, keepFirst] at h
    rw [firstWith_snoc]
    by_cases hx : key x ∈ (firstWrites key xs).map key
    · rw [if_pos hx] at h
      rw [ih h, Option.some_or]
    · rw [if_neg hx] at h
      rcases List.mem_append.mp (List.mem_of_getElem? h) with hr | hr
      · obtain ⟨j, hj⟩ := List.mem_iff_getElem?.mp hr
        rw [ih hj, Option.some_or]
      · obtain rfl := List.mem_singleton.mp hr
        rw [firstWrites_keys, List.mem_eraseDups, ← firstWith_isSome] at hx
        rw [Option.not_isSome_iff_eq_none.mp hx, if_pos rfl, Option.none_or]

theorem mem_of_mem_firstWrites {xs : List α} {r : α} (h : r ∈ firstWrites key xs) : r ∈ xs := by
  obtain ⟨i, hi⟩ := List.mem_iff_getElem?.mp h
  exact List.mem_of_find?_eq_some (firstWrites_getElem? hi)

/-- **The rows are a function of the keys**: each key's last write, in order of
the keys' first appearance. -/
theorem lastWrites_eq (xs : List α) :
    (lastWrites key xs).map some = (xs.map key).eraseDups.map (lastWith key xs) := by
  rw [← lastWrites_keys, List.map_map]
  refine List.map_congr_left fun r hr => ?_
  obtain ⟨i, hi⟩ := List.mem_iff_getElem?.mp hr
  exact (lastWrites_getElem? hi).symm

/-- **Replay.** Sending `ys` a second time changes no row: every key of `ys` is
in, and its last write is the same one. -/
theorem lastWrites_replay (xs ys : List α) :
    lastWrites key (xs ++ ys ++ ys) = lastWrites key (xs ++ ys) := by
  have hkeys : ((xs ++ ys ++ ys).map key).eraseDups = ((xs ++ ys).map key).eraseDups := by
    rw [List.map_append]
    refine eraseDups_absorb fun k hk => ?_
    rw [List.map_append]
    exact List.mem_append_right _ hk
  have hlast : ∀ k, lastWith key (xs ++ ys ++ ys) k = lastWith key (xs ++ ys) k := by
    intro k
    rw [lastWith_append (xs ++ ys) ys, lastWith_append xs ys]
    cases lastWith key ys k with
    | none => rfl
    | some r => rfl
  have h : (lastWrites key (xs ++ ys ++ ys)).map some
      = ((xs ++ ys ++ ys).map key).eraseDups.map (lastWith key (xs ++ ys ++ ys)) :=
    lastWrites_eq _
  rw [hkeys, List.map_congr_left (fun k _ => hlast k), ← lastWrites_eq] at h
  exact List.map_injective_iff.mpr (Option.some_injective _) h

/-- What came first stays where it is. -/
theorem firstWrites_initial (xs ys : List α) :
    firstWrites key xs <+: firstWrites key (xs ++ ys) := by
  induction ys using List.reverseRecOn with
  | nil => exact ⟨[], by rw [List.append_nil, List.append_nil]⟩
  | append_singleton ys y ih =>
    rw [← List.append_assoc, firstWrites_snoc, keepFirst]
    by_cases hin : key y ∈ (firstWrites key (xs ++ ys)).map key
    · rw [if_pos hin]
      exact ih
    · rw [if_neg hin]
      exact ih.trans (List.prefix_append _ _)

/-- A place keeps its key. -/
theorem lastWrites_key_kept {xs : List α} {i : ℕ} {r : α} (h : (lastWrites key xs)[i]? = some r)
    (ys : List α) : ∃ r', (lastWrites key (xs ++ ys))[i]? = some r' ∧ key r' = key r := by
  have hkey : (xs.map key).eraseDups[i]? = some (key r) := by
    rw [← lastWrites_keys, List.getElem?_map, h, Option.map_some]
  have hkept := (List.prefix_iff_getElem?.mp (eraseDups_initial (xs.map key) (ys.map key))) i
    (List.getElem?_eq_some_iff.mp hkey).1
  rw [← List.map_append, ← lastWrites_keys, List.getElem?_map, Option.map_eq_some_iff] at hkept
  obtain ⟨r', hr', hsame⟩ := hkept
  exact ⟨r', hr', hsame.trans (List.getElem?_eq_some_iff.mp hkey).2⟩

/-- What is not written again stays. -/
theorem lastWrites_kept {xs ys : List α} {i : ℕ} {r : α} (h : (lastWrites key xs)[i]? = some r)
    (hys : key r ∉ ys.map key) : (lastWrites key (xs ++ ys))[i]? = some r := by
  obtain ⟨r', hr', hsame⟩ := lastWrites_key_kept h ys
  have hlast := lastWrites_getElem? hr'
  have hnone : lastWith key ys (key r) = none :=
    Option.not_isSome_iff_eq_none.mp (lastWith_isSome.not.mpr hys)
  rw [hsame, lastWith_append, hnone, Option.none_or, lastWrites_getElem? h] at hlast
  rw [hr', ← hlast]

/-- First writes are settled once they are in. -/
theorem firstWrites_absorb {xs ys : List α} (h : ∀ y ∈ ys, key y ∈ xs.map key) :
    firstWrites key (xs ++ ys) = firstWrites key xs := by
  induction ys using List.reverseRecOn with
  | nil => rw [List.append_nil]
  | append_singleton ys y ih =>
    rw [← List.append_assoc, firstWrites_snoc, ih (fun z hz => h z (by simp [hz])), keepFirst,
      if_pos]
    rw [firstWrites_keys, List.mem_eraseDups]
    exact h y (by simp)

/-! ## Writes with distinct keys -/

omit [DecidableEq κ] in
theorem nodup_snoc {xs : List α} {x : α} (h : ((xs ++ [x]).map key).Nodup) :
    (xs.map key).Nodup ∧ key x ∉ xs.map key := by
  rw [List.map_append, List.map_singleton] at h
  refine ⟨List.Nodup.of_append_left h, fun hx => ?_⟩
  exact List.disjoint_of_nodup_append h hx (List.mem_singleton_self _)

/-- Without a key written twice the rows are the writes. -/
theorem lastWrites_of_nodup {xs : List α} (h : (xs.map key).Nodup) : lastWrites key xs = xs := by
  induction xs using List.reverseRecOn with
  | nil => rfl
  | append_singleton xs x ih =>
    obtain ⟨hinit, hnew⟩ := nodup_snoc h
    rw [lastWrites_snoc, ih hinit, upsert_of_notMem hnew]

theorem firstWrites_of_nodup {xs : List α} (h : (xs.map key).Nodup) : firstWrites key xs = xs := by
  induction xs using List.reverseRecOn with
  | nil => rfl
  | append_singleton xs x ih =>
    obtain ⟨hinit, hnew⟩ := nodup_snoc h
    rw [firstWrites_snoc, ih hinit, keepFirst, if_neg hnew]

/-- A distinct key names its write. -/
theorem firstWith_of_nodup {xs : List α} (h : (xs.map key).Nodup) {k : κ} {x : α} :
    firstWith key xs k = some x ↔ x ∈ xs ∧ key x = k := by
  constructor
  · intro hx
    refine ⟨List.mem_of_find?_eq_some hx, ?_⟩
    simpa using List.find?_some hx
  · rintro ⟨hx, rfl⟩
    obtain ⟨i, hi⟩ := List.mem_iff_getElem?.mp hx
    rw [← firstWrites_of_nodup h] at hi
    exact firstWrites_getElem? hi

/-- Nor does it matter in which order they are written. -/
theorem firstWith_perm {xs ys : List α} (hperm : xs.Perm ys) (h : (xs.map key).Nodup) (k : κ) :
    firstWith key xs k = firstWith key ys k := by
  refine Option.ext fun x => ?_
  rw [firstWith_of_nodup h, firstWith_of_nodup ((hperm.map key).nodup_iff.mp h), hperm.mem_iff]

/-! ## Other keys -/

/-- The position of a key, in a list without repetitions. -/
theorem idxOf?_of_nodup {ks : List κ} (hnd : ks.Nodup) {k : κ} {i : ℕ} :
    ks.idxOf? k = some i ↔ ks[i]? = some k := by
  rw [List.idxOf?_eq_some_iff]
  constructor
  · rintro ⟨hi, hk, _⟩
    exact List.getElem?_eq_some_iff.mpr ⟨hi, hk⟩
  · intro h
    obtain ⟨hi, hk⟩ := List.getElem?_eq_some_iff.mp h
    refine ⟨hi, hk, fun j hj hjk => ?_⟩
    have hji := index_unique hnd (List.getElem?_eq_some_iff.mpr ⟨Nat.lt_trans hj hi, hjk⟩) h
    omega

section Map

variable {β κ' : Type*} [DecidableEq κ'] {key' : β → κ'}

/-- Keys that are told apart alike keep the same writes. -/
theorem lastWrites_map {f : α → β} (h : ∀ x y, key' (f x) = key' (f y) ↔ key x = key y)
    (xs : List α) : lastWrites key' (xs.map f) = (lastWrites key xs).map f := by
  induction xs using List.reverseRecOn with
  | nil => rfl
  | append_singleton xs x ih =>
    have hfind : ((lastWrites key xs).map f).findIdx? (fun r => decide (key' r = key' (f x)))
        = (lastWrites key xs).findIdx? fun r => decide (key r = key x) := by
      rw [List.findIdx?_map]
      congr 1
      funext r
      exact decide_eq_decide.mpr (h r x)
    rw [List.map_append, List.map_singleton, lastWrites_snoc, lastWrites_snoc, ih, upsert, upsert,
      hfind]
    cases (lastWrites key xs).findIdx? fun r => decide (key r = key x) with
    | none => rw [List.map_append, List.map_singleton]
    | some i => exact List.map_set.symm

theorem firstWrites_map {f : α → β} (h : ∀ x y, key' (f x) = key' (f y) ↔ key x = key y)
    (xs : List α) : firstWrites key' (xs.map f) = (firstWrites key xs).map f := by
  induction xs using List.reverseRecOn with
  | nil => rfl
  | append_singleton xs x ih =>
    have hmem : key' (f x) ∈ ((firstWrites key xs).map f).map key'
        ↔ key x ∈ (firstWrites key xs).map key := by
      simp only [List.mem_map, exists_exists_and_eq_and, h]
    rw [List.map_append, List.map_singleton, firstWrites_snoc, firstWrites_snoc, ih, keepFirst,
      keepFirst]
    by_cases hkey : key x ∈ (firstWrites key xs).map key
    · rw [if_pos hkey, if_pos (hmem.mpr hkey)]
    · rw [if_neg hkey, if_neg fun hin => hkey (hmem.mp hin), List.map_append]
      rfl

end Map

end Lib.LastWrite
