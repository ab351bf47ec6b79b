/-
`Ascent.lean` -- following parent pointers.

A table of parent pointers is a partial function `up`: a node's parent, or
nothing for a root. Following it from a node either ends in a root or goes
around a cycle for ever, and on finitely many nodes the two exclude each other:
the ascent from every node ends exactly when no node is its own ancestor
([`ends_of_acyclic`], [`Ends.not_on_cycle`]).
-/
import Mathlib.Data.Fintype.Card
import Mathlib.Data.Fintype.Sets
import Mathlib.Data.Fintype.EquivFin
import Mathlib.Logic.Relation

set_option autoImplicit false

namespace Lib.Ascent

open Relation

variable {ι : Type*} (up : ι → Option ι)

/-- `j` is the parent of `i`. -/
def Step (i j : ι) : Prop := up i = some j

/-- The ascent from `i` reaches a root. -/
def Ends (i : ι) : Prop := ∃ r, ReflTransGen (Step up) i r ∧ up r = none

variable {up}

/-- An ascent that ends does not start on a cycle: every node of a cycle has its
parent on the same cycle. -/
theorem Ends.not_on_cycle {i : ι} (h : Ends up i) : ¬TransGen (Step up) i i := by
  obtain ⟨r, hpath, hroot⟩ := h
  induction hpath using ReflTransGen.head_induction_on with
  | refl =>
    intro hcycle
    obtain ⟨j, hj, _⟩ := TransGen.head'_iff.mp hcycle
    rw [Step, hroot] at hj
    cases hj
  | head hstep _ ih =>
    intro hcycle
    apply ih
    obtain ⟨k, hk, hback⟩ := TransGen.head'_iff.mp hcycle
    obtain rfl := Option.some.inj (hstep.symm.trans hk)
    exact TransGen.tail' hback hstep

/-- **On finitely many nodes an ascent without a cycle ends.** The induction is
on the ancestor relation, which is well-founded because it is transitive and
irreflexive on a finite type. -/
theorem ends_of_acyclic {nodes : Finset ι} (hclosed : ∀ i ∈ nodes, ∀ j, up i = some j → j ∈ nodes)
    (hacyclic : ∀ i ∈ nodes, ¬TransGen (Step up) i i) : ∀ i ∈ nodes, Ends up i := by
  let above : nodes → nodes → Prop := fun a b => TransGen (Step up) b.val a.val
  have htrans : IsTrans nodes above := ⟨fun _ _ _ hab hbc => hbc.trans hab⟩
  have hirrefl : Std.Irrefl above := ⟨fun a ha => hacyclic a.val a.property ha⟩
  have hwf : WellFounded above := Finite.wellFounded_of_trans_of_irrefl above
  intro i hi
  have hall : ∀ a : nodes, Ends up a.val := by
    intro a
    induction a using hwf.induction with
    | h a ih =>
      cases ha : up a.val with
      | none => exact ⟨a.val, ReflTransGen.refl, ha⟩
      | some j =>
        obtain ⟨r, hpath, hroot⟩ := ih ⟨j, hclosed a.val a.property j ha⟩ (TransGen.single ha)
        exact ⟨r, ReflTransGen.head ha hpath, hroot⟩
  exact hall ⟨i, hi⟩

end Lib.Ascent
