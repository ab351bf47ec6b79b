/-
`Interner.lean` -- `src/store/interner.rs`: the capped string interner.

The model is the source's: a map from strings to ids beside the vector of
strings, a cap, and the count of refusals. What it computes has a description
that mentions neither structure. Let `ks` be every string presented so far, in
order. Then the ids `0, 1, …` are the first `cap` *distinct* strings of `ks` in
order of first appearance ([`accepted`]), a string is looked up at its position
in that list, and a string outside it has been refused. [`Interner.Holds`] says
so, every `intern` keeps it ([`Interner.intern_holds`]), and the two facts the
store rests on follow from it alone: an answer once given stays the answer
([`Interner.Holds.lookup_stable`]), and an id once given keeps its string
([`Interner.Holds.get_stable`]).
-/
import Spanfall.Lib.HashMap
import Spanfall.Lib.LastWrite
import Spanfall.Lib.Vec
import Spanfall.Store.Types

set_option autoImplicit false

namespace Spanfall

open Lib.HashMap Lib.LastWrite

/-- `Interner`. -/
structure Interner where
  map : FxHashMap String UInt32
  values : List String
  cap : ℕ
  cap_hit_count : ℕ

namespace Interner

/-- `Interner::new`. -/
def new (cap : ℕ) : Interner :=
  { map := ∅, values := [], cap, cap_hit_count := 0 }

/-- `Interner::intern`: the id of `s`, interning it if it is new and there is
room. -/
def intern (self : Interner) (s : String) : Option UInt32 × Interner :=
  match self.map.lookup s with
  | some id => (some id, self)
  | none =>
    if self.values.length ≥ self.cap then
      (none, { self with cap_hit_count := self.cap_hit_count + 1 })
    else
      let id := UInt32.ofNat self.values.length
      (some id, { self with values := self.values ++ [s], map := self.map.insert s id })

/-- `Interner::get`; an id that was never handed out panics. -/
def get (self : Interner) (id : UInt32) : Option String := self.values[id.toNat]?

/-- `Interner::lookup`. -/
def lookup (self : Interner) (s : String) : Option UInt32 := self.map.lookup s

end Interner

/-! ## What an interner holds -/

/-- The strings an interner of the given cap accepts out of `ks`. -/
def accepted (cap : ℕ) (ks : List String) : List String := ks.eraseDups.take cap

/-- A string's acceptance is decided the first time it is presented. -/
theorem mem_accepted_append {cap : ℕ} {ks : List String} {k : String} (h : k ∈ ks)
    (js : List String) :
    k ∈ accepted cap (ks ++ js) ↔ k ∈ accepted cap ks := by
  obtain ⟨post, hpost⟩ := eraseDups_initial ks js
  unfold accepted
  rw [← hpost]
  have hnd : (ks.eraseDups ++ post).Nodup := hpost ▸ nodup_eraseDups (ks ++ js)
  obtain ⟨i, hi⟩ := List.mem_iff_getElem?.mp (List.mem_eraseDups.mpr h)
  have hlt := (List.getElem?_eq_some_iff.mp hi).1
  have hi' : (ks.eraseDups ++ post)[i]? = some k := by
    rw [List.getElem?_append_left hlt, hi]
  -- in both lists the only index of `k` is `i`, so both sides say `i < cap`
  have key : ∀ l : List String, l.Nodup → l[i]? = some k → (k ∈ l.take cap ↔ i < cap) := by
    intro l hl hk
    rw [List.mem_iff_getElem?]
    constructor
    · rintro ⟨j, hj⟩
      rw [List.getElem?_take] at hj
      by_cases hjc : j < cap
      · rw [if_pos hjc] at hj
        rw [index_unique hl hk hj]
        exact hjc
      · rw [if_neg hjc] at hj
        cases hj
    · intro hic
      exact ⟨i, by rw [List.getElem?_take, if_pos hic, hk]⟩
  rw [key _ hnd hi', key _ (nodup_eraseDups ks) hi]

namespace Interner

/-- `I` is an interner to which exactly the strings `ks` have been presented. -/
structure Holds (I : Interner) (ks : List String) : Prop where
  cap_lt : I.cap < 2 ^ 32
  values : I.values = accepted I.cap ks
  map : ∀ s id, I.map.lookup s = some id ↔ I.values[id.toNat]? = some s

theorem Holds.length_le {I : Interner} {ks : List String} (h : I.Holds ks) :
    I.values.length ≤ I.cap := by
  rw [h.values, accepted, List.length_take]
  exact Nat.min_le_left _ _

theorem new_holds {cap : ℕ} (hcap : cap < 2 ^ 32) : (new cap).Holds [] where
  cap_lt := hcap
  values := by simp [new, accepted]
  map := by simp [new]

/-- A string is looked up exactly when it has been accepted. -/
theorem Holds.lookup_isSome {I : Interner} {ks : List String} (h : I.Holds ks) (s : String) :
    (I.lookup s).isSome ↔ s ∈ accepted I.cap ks := by
  rw [← h.values, List.mem_iff_getElem?, Option.isSome_iff_exists]
  constructor
  · rintro ⟨id, hid⟩
    exact ⟨id.toNat, (h.map s id).mp hid⟩
  · rintro ⟨i, hi⟩
    have hlt := (List.getElem?_eq_some_iff.mp hi).1
    have hle := h.length_le
    have hcap := h.cap_lt
    refine ⟨UInt32.ofNat i, (h.map s _).mpr ?_⟩
    rwa [UInt32.toNat_ofNat', Nat.mod_eq_of_lt (by omega)]

/-- An id that is looked up resolves to its string. -/
theorem Holds.get_of_lookup {I : Interner} {ks : List String} (h : I.Holds ks) {s : String}
    {id : UInt32} (hid : I.lookup s = some id) : I.get id = some s :=
  (h.map s id).mp hid

/-! ## One call -/

section Call

variable {I : Interner} {ks : List String} {s : String}

theorem Holds.mem_values (h : I.Holds ks) : s ∈ I.values ↔ (I.map.lookup s).isSome := by
  rw [h.values]
  exact (h.lookup_isSome s).symm

/-- A known string changes nothing. -/
theorem Holds.known (h : I.Holds ks) {id : UInt32} (hs : I.map.lookup s = some id) :
    I.Holds (ks ++ [s]) := by
  have hin : s ∈ ks := by
    have hval : s ∈ I.values := h.mem_values.mpr (by rw [hs]; rfl)
    rw [h.values, accepted] at hval
    exact List.mem_eraseDups.mp (List.mem_of_mem_take hval)
  refine ⟨h.cap_lt, ?_, h.map⟩
  rw [h.values, accepted, accepted, eraseDups_snoc, if_pos hin]

/-- In a full interner the first `cap` distinct strings are complete. -/
theorem Holds.full (h : I.Holds ks) (hfull : I.values.length ≥ I.cap) (n : ℕ) :
    Holds { I with cap_hit_count := n } (ks ++ [s]) := by
  refine ⟨h.cap_lt, ?_, h.map⟩
  have hlong : I.cap ≤ ks.eraseDups.length := by
    rw [h.values, accepted, List.length_take] at hfull
    omega
  obtain ⟨post, hpost⟩ := eraseDups_initial ks [s]
  change I.values = (ks ++ [s]).eraseDups.take I.cap
  rw [h.values, accepted, ← hpost, List.take_append_of_le_length hlong]

/-- Short of the cap the list is all of `ks`, and a new string goes to its
end. -/
theorem Holds.fresh (h : I.Holds ks) (hs : I.map.lookup s = none)
    (hroom : ¬I.values.length ≥ I.cap) :
    Holds { I with
      values := I.values ++ [s]
      map := I.map.insert s (UInt32.ofNat I.values.length) } (ks ++ [s]) := by
  have hcap := h.cap_lt
  have hout : s ∉ I.values := by
    rw [h.mem_values, hs]
    exact Bool.false_ne_true
  have hshort : ks.eraseDups.length < I.cap := by
    rw [h.values, accepted, List.length_take] at hroom
    omega
  have hall : I.values = ks.eraseDups := by
    rw [h.values, accepted, List.take_of_length_le (by omega)]
  have hnew : s ∉ ks := fun hin => hout (hall ▸ List.mem_eraseDups.mpr hin)
  refine ⟨hcap, ?_, fun t id => ?_⟩
  · change I.values ++ [s] = (ks ++ [s]).eraseDups.take I.cap
    rw [eraseDups_snoc, if_neg hnew, hall, List.take_of_length_le]
    rw [List.length_append, List.length_singleton]
    omega
  · change (I.map.insert s _).lookup t = some id ↔ (I.values ++ [s])[id.toNat]? = some t
    have hid : (UInt32.ofNat I.values.length).toNat = I.values.length := by
      rw [UInt32.toNat_ofNat', Nat.mod_eq_of_lt (by omega)]
    rw [lookup_insert, Lib.Vec.getElem?_snoc_of_notMem hout]
    by_cases hts : t = s
    · rw [if_pos hts, if_pos hts, Option.some.injEq, ← UInt32.toNat_inj, hid]
    · rw [if_neg hts, if_neg hts, h.map]

/-- **What one `intern` does**: the string is presented, and the answer is the
string's lookup from then on. -/
theorem intern_holds (h : I.Holds ks) (s : String) :
    (I.intern s).2.Holds (ks ++ [s])
      ∧ (I.intern s).2.cap = I.cap
      ∧ (I.intern s).1 = (I.intern s).2.lookup s := by
  unfold intern
  cases hs : I.map.lookup s with
  | some id => exact ⟨h.known hs, rfl, hs.symm⟩
  | none =>
    by_cases hfull : I.values.length ≥ I.cap
    · simp only [if_pos hfull]
      exact ⟨h.full hfull _, trivial, hs.symm⟩
    · simp only [if_neg hfull]
      refine ⟨h.fresh hs hfull, trivial, ?_⟩
      change some _ = (I.map.insert s _).lookup s
      rw [Finmap.lookup_insert]

end Call

/-! ## Answers do not change -/

theorem Holds.values_initial {I J : Interner} {ks js : List String} (hI : I.Holds ks)
    (hJ : J.Holds (ks ++ js)) (hcap : J.cap = I.cap) : I.values <+: J.values := by
  rw [hI.values, hJ.values, hcap]
  exact (eraseDups_initial ks js).take I.cap

/-- An id keeps its string. -/
theorem Holds.get_stable {I J : Interner} {ks js : List String} (hI : I.Holds ks)
    (hJ : J.Holds (ks ++ js)) (hcap : J.cap = I.cap) {id : UInt32} {s : String}
    (h : I.get id = some s) : J.get id = some s := by
  obtain ⟨post, hpost⟩ := hI.values_initial hJ hcap
  have hlt := (List.getElem?_eq_some_iff.mp h).1
  rw [get, ← hpost, List.getElem?_append_left hlt]
  exact h

/-- A string that was presented keeps its answer, be it an id or a refusal. -/
theorem Holds.lookup_stable {I J : Interner} {ks js : List String} (hI : I.Holds ks)
    (hJ : J.Holds (ks ++ js)) (hcap : J.cap = I.cap) {k : String} (hk : k ∈ ks) :
    J.lookup k = I.lookup k := by
  cases hi : I.lookup k with
  | some id => exact (hJ.map k id).mpr (hI.get_stable hJ hcap (hI.get_of_lookup hi))
  | none =>
    have hout : k ∉ accepted I.cap ks := by
      rw [← hI.lookup_isSome k, hi]
      exact Bool.false_ne_true
    rw [← mem_accepted_append hk js, ← hcap, ← hJ.lookup_isSome k] at hout
    exact Option.not_isSome_iff_eq_none.mp hout

/-- Strings already presented are answered without changing the table. -/
theorem Holds.values_absorb {I J : Interner} {ks js : List String} (hI : I.Holds ks)
    (hJ : J.Holds (ks ++ js)) (hcap : J.cap = I.cap) (h : ∀ j ∈ js, j ∈ ks) :
    J.values = I.values ∧ J.map = I.map := by
  have hvals : J.values = I.values := by
    rw [hI.values, hJ.values, hcap, accepted, accepted, eraseDups_absorb h]
  refine ⟨hvals, Finmap.ext_lookup fun s => Option.ext fun id => ?_⟩
  rw [hJ.map, hI.map, hvals]

end Interner

end Spanfall
