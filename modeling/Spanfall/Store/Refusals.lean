/-
`Refusals.lean` -- the interner over a whole run of calls.

A call is answered with the string's lookup, and that answer is final: whatever
is presented later, the string is looked up the same ([`answer_eq_lookup`]). So
what all calls of a run have returned can be read off the table they leave
behind, and the table is described by the strings alone, through `accepted`.
[`stable_bijection`] puts this together; [`cap_hit_count_present`] counts the
calls that were refused.
-/
import Mathlib.Data.List.Count
import Mathlib.Data.List.Nodup
import Spanfall.Store.Interner

set_option autoImplicit false

namespace Spanfall

open Lib.HashMap Lib.LastWrite

/-! ## Counting the refused strings -/

/-- How many of the strings presented are not among the first `cap` distinct
ones, each counted as often as it came. -/
def refused (cap : ℕ) (ks : List String) : ℕ := ks.countP fun k => decide (k ∉ accepted cap ks)

theorem refused_snoc (cap : ℕ) (ks : List String) (k : String) :
    refused cap (ks ++ [k])
      = refused cap ks + if k ∈ accepted cap (ks ++ [k]) then 0 else 1 := by
  have hold : ks.countP (fun j => decide (j ∉ accepted cap (ks ++ [k])))
      = ks.countP fun j => decide (j ∉ accepted cap ks) := by
    apply List.countP_congr
    intro j hj
    rw [decide_eq_true_eq, decide_eq_true_eq, mem_accepted_append hj]
  rw [refused, List.countP_append, hold, List.countP_singleton, refused]
  by_cases hk : k ∈ accepted cap (ks ++ [k])
  · simp [hk]
  · simp [hk]

/-- Nothing is refused as long as the distinct strings fit. -/
theorem refused_eq_zero_iff (cap : ℕ) (ks : List String) :
    refused cap ks = 0 ↔ ks.eraseDups.length ≤ cap := by
  rw [refused, List.countP_eq_zero]
  constructor
  · intro h
    have hsub : ks.eraseDups ⊆ accepted cap ks := by
      intro k hk
      simpa using h k (List.mem_eraseDups.mp hk)
    have hle := ((nodup_eraseDups ks).subperm hsub).length_le
    exact hle.trans (List.length_take_le _ _)
  · intro h k hk
    rw [accepted, List.take_of_length_le h, decide_eq_true_eq, not_not]
    exact List.mem_eraseDups.mpr hk

/-- Of distinct strings all but the first `cap` are refused. -/
theorem refused_of_nodup (cap : ℕ) {ks : List String} (h : ks.Nodup) :
    refused cap ks = ks.length - cap := by
  have hsplit := ks.take_append_drop cap
  have hdisjoint : List.Disjoint (ks.take cap) (ks.drop cap) := by
    apply List.disjoint_of_nodup_append
    rwa [hsplit]
  rw [refused, accepted, eraseDups_of_nodup h]
  conv_lhs => rw [← hsplit]
  rw [List.countP_append, hsplit, List.countP_eq_zero.mpr, List.countP_eq_length.mpr, Nat.zero_add,
    List.length_drop]
  · intro k hk
    rw [decide_eq_true_eq]
    exact fun hin => hdisjoint hin hk
  · intro k hk
    rw [decide_eq_true_eq, not_not]
    exact hk

namespace Interner

/-! ## One call -/

/-- A call that is refused raises the count, any other leaves it. -/
theorem cap_hit_count_intern (I : Interner) (s : String) :
    (I.intern s).2.cap_hit_count
      = I.cap_hit_count + if (I.intern s).1.isNone then 1 else 0 := by
  unfold intern
  cases I.map.lookup s with
  | some id => rfl
  | none =>
    dsimp only
    by_cases hfull : I.values.length ≥ I.cap
    · rw [if_pos hfull]
      rfl
    · rw [if_neg hfull]
      rfl

/-- Nothing else is changed by a refusal. -/
theorem intern_of_none {I : Interner} {s : String} (h : (I.intern s).1 = none) :
    (I.intern s).2 = { I with cap_hit_count := I.cap_hit_count + 1 } := by
  unfold intern at h ⊢
  cases hs : I.map.lookup s with
  | some id =>
    rw [hs] at h
    cases h
  | none =>
    rw [hs] at h
    dsimp only at h ⊢
    by_cases hfull : I.values.length ≥ I.cap
    · rw [if_pos hfull]
    · rw [if_neg hfull] at h
      cases h

/-- A call is refused when its string is not among the first `cap` distinct
ones, itself included. -/
theorem Holds.intern_none_iff {I : Interner} {ks : List String} (h : I.Holds ks) (s : String) :
    (I.intern s).1 = none ↔ s ∉ accepted I.cap (ks ++ [s]) := by
  obtain ⟨h', hcap, hanswer⟩ := intern_holds h s
  rw [hanswer, ← Option.not_isSome_iff_eq_none, h'.lookup_isSome, hcap]

/-! ## Many calls -/

/-- The interner after a call for each of `ss`. -/
def present (self : Interner) (ss : List String) : Interner :=
  ss.foldl (fun I s => (I.intern s).2) self

theorem present_append (I : Interner) (ss ss' : List String) :
    I.present (ss ++ ss') = (I.present ss).present ss' := List.foldl_append

theorem present_snoc (I : Interner) (ss : List String) (s : String) :
    I.present (ss ++ [s]) = ((I.present ss).intern s).2 := by
  rw [present, List.foldl_append]
  rfl

theorem present_holds {cap : ℕ} (hcap : cap < 2 ^ 32) (ss : List String) :
    ((new cap).present ss).Holds ss ∧ ((new cap).present ss).cap = cap := by
  induction ss using List.reverseRecOn with
  | nil => exact ⟨new_holds hcap, rfl⟩
  | append_singleton ss s ih =>
    obtain ⟨h, hc⟩ := ih
    obtain ⟨h', hc', _⟩ := intern_holds h s
    rw [present_snoc]
    exact ⟨h', hc'.trans hc⟩

/-- The count is that of the strings refused. -/
theorem cap_hit_count_present {cap : ℕ} (hcap : cap < 2 ^ 32) (ss : List String) :
    ((new cap).present ss).cap_hit_count = refused cap ss := by
  induction ss using List.reverseRecOn with
  | nil => rfl
  | append_singleton ss s ih =>
    obtain ⟨h, hc⟩ := present_holds hcap ss
    have hnone := h.intern_none_iff s
    rw [hc] at hnone
    rw [present_snoc, cap_hit_count_intern, ih, refused_snoc]
    by_cases hs : s ∈ accepted cap (ss ++ [s])
    · have hsome : ¬((new cap).present ss |>.intern s).1.isNone = true := by
        rw [Option.isNone_iff_eq_none, hnone, not_not]
        exact hs
      rw [if_neg hsome, if_pos hs]
    · rw [if_pos (Option.isNone_iff_eq_none.mpr (hnone.mpr hs)), if_neg hs]

/-- What `intern(s)` returns after the calls `pre`. -/
def answer (cap : ℕ) (pre : List String) (s : String) : Option UInt32 :=
  (((new cap).present pre).intern s).1

/-- **Every answer is final**: it is the string's lookup at the end of the
run. -/
theorem answer_eq_lookup {cap : ℕ} (hcap : cap < 2 ^ 32) {pre ss : List String} {s : String}
    (hcall : pre ++ [s] <+: ss) : answer cap pre s = ((new cap).present ss).lookup s := by
  obtain ⟨post, rfl⟩ := hcall
  obtain ⟨hpre, hcpre⟩ := present_holds hcap pre
  obtain ⟨hthen, hcthen, hanswer⟩ := intern_holds hpre s
  obtain ⟨hend, hcend⟩ := present_holds hcap (pre ++ [s] ++ post)
  have hsame : ((new cap).present (pre ++ [s] ++ post)).cap
      = (((new cap).present pre).intern s).2.cap := by
    rw [hcend, hcthen, hcpre]
  have hin : s ∈ pre ++ [s] := List.mem_append_right _ (List.mem_singleton_self s)
  rw [answer, hanswer]
  exact (hthen.lookup_stable hend hsame hin).symm

/-- Every id below the length has been handed out: its string was presented, and
has had one answer since. -/
theorem answered_of_lt {cap : ℕ} (hcap : cap < 2 ^ 32) {ss : List String} {id : UInt32}
    (hlt : id.toNat < ((new cap).present ss).values.length) :
    ∃ pre s, pre ++ [s] <+: ss ∧ answer cap pre s = some id := by
  obtain ⟨h, _⟩ := present_holds hcap ss
  have hget := List.getElem?_eq_getElem hlt
  set s := ((new cap).present ss).values[id.toNat]
  have hmem : s ∈ accepted ((new cap).present ss).cap ss := h.values ▸ List.mem_of_getElem? hget
  have hin : s ∈ ss := List.mem_eraseDups.mp (List.mem_of_mem_take hmem)
  obtain ⟨pre, post, hsplit⟩ := List.append_of_mem hin
  have hcall : pre ++ [s] <+: ss := ⟨post, by rw [hsplit, List.append_assoc]; rfl⟩
  refine ⟨pre, s, hcall, ?_⟩
  rw [answer_eq_lookup hcap hcall]
  exact (h.map s id).mpr hget

/-- An interner that has answered the calls `ss`. -/
structure StableBijection (cap : ℕ) (ss : List String) : Prop where
  /-- There are at most `cap` ids. -/
  bounded : ((new cap).present ss).values.length ≤ cap
  /-- The ids handed out are `0, …, len - 1`. -/
  handed_out : ∀ id : UInt32, (∃ pre s, pre ++ [s] <+: ss ∧ answer cap pre s = some id)
    ↔ id.toNat < ((new cap).present ss).values.length
  /-- The map and the vector are inverse to each other. -/
  inverse : ∀ s id, ((new cap).present ss).map.lookup s = some id
    ↔ ((new cap).present ss).values[id.toNat]? = some s
  /-- An id that any of the calls has returned still resolves to its string,
  and is what the string is answered with. -/
  stable : ∀ pre s id, pre ++ [s] <+: ss → answer cap pre s = some id →
    ((new cap).present ss).get id = some s ∧ ((new cap).present ss).lookup s = some id
      ∧ answer cap ss s = some id
  /-- Two strings never get one id. -/
  injective : ∀ pre s pre' s' id, pre ++ [s] <+: ss → pre' ++ [s'] <+: ss →
    answer cap pre s = some id → answer cap pre' s' = some id → s = s'
  /-- Looked up are the first `cap` distinct strings presented. -/
  known : ∀ s, (((new cap).present ss).lookup s).isSome ↔ s ∈ accepted cap ss
  /-- The next call is refused when its string is not one of them, -/
  refusal : ∀ s, answer cap ss s = none ↔ s ∉ accepted cap (ss ++ [s])
  /-- then the count is raised by one and nothing else changes, -/
  raised : ∀ s, s ∉ accepted cap (ss ++ [s]) → (new cap).present (ss ++ [s])
    = { (new cap).present ss with
        cap_hit_count := ((new cap).present ss).cap_hit_count + 1 }
  /-- and otherwise the count stays. -/
  unraised : ∀ s, s ∈ accepted cap (ss ++ [s]) →
    ((new cap).present (ss ++ [s])).cap_hit_count = ((new cap).present ss).cap_hit_count

/-- **The interner is a stable bounded bijection**, after any calls. -/
theorem stable_bijection (cap : ℕ) (hcap : cap < 2 ^ 32) (ss : List String) :
    StableBijection cap ss := by
  obtain ⟨h, hc⟩ := present_holds hcap ss
  have hlookup : ∀ {pre s id}, pre ++ [s] <+: ss → answer cap pre s = some id →
      ((new cap).present ss).lookup s = some id := by
    intro pre s id hcall hid
    rw [← answer_eq_lookup hcap hcall, hid]
  have hnone : ∀ s, answer cap ss s = none ↔ s ∉ accepted cap (ss ++ [s]) := by
    intro s
    have := h.intern_none_iff s
    rwa [hc] at this
  refine ⟨?_, ?_, h.map, ?_, ?_, ?_, hnone, ?_, ?_⟩
  · exact h.length_le.trans_eq hc
  · intro id
    constructor
    · rintro ⟨pre, s, hcall, hid⟩
      exact (List.getElem?_eq_some_iff.mp (h.get_of_lookup (hlookup hcall hid))).1
    · exact answered_of_lt hcap
  · intro pre s id hcall hid
    have hl := hlookup hcall hid
    refine ⟨h.get_of_lookup hl, hl, ?_⟩
    have hmap : ((new cap).present ss).map.lookup s = some id := hl
    rw [answer, intern, hmap]
  · intro pre s pre' s' id hcall hcall' hid hid'
    have hget := h.get_of_lookup (hlookup hcall hid)
    have hget' := h.get_of_lookup (hlookup hcall' hid')
    exact Option.some.inj (hget.symm.trans hget')
  · intro s
    rw [h.lookup_isSome, hc]
  · intro s hs
    rw [present_snoc]
    exact intern_of_none ((hnone s).mpr hs)
  · intro s hs
    have hsome : ¬(answer cap ss s).isNone = true := by
      rw [Option.isNone_iff_eq_none, hnone, not_not]
      exact hs
    rw [present_snoc, cap_hit_count_intern]
    exact congrArg _ (if_neg hsome)

/-- The calls of `cap_reached_refuses_new_strings_but_keeps_serving_existing_ones`. -/
theorem stable_bijection_full :
    StableBijection 2 ["a", "b", "c", "a"] ∧ answer 2 ["a", "b"] "c" = none
      ∧ answer 2 ["a", "b", "c"] "a" = some 0
      ∧ ((new 2).present ["a", "b", "c", "a"]).cap_hit_count = 1 :=
  ⟨stable_bijection 2 (by decide) _, by decide +kernel, by decide +kernel, by decide +kernel⟩

end Interner

end Spanfall
