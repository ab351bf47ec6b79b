/-
`Forest.lean` -- whether the links of a trace form a forest.

A link is set when both ends are known, in whichever order they came, and
nothing asks where it leads. A span that names itself waits under its own id
and is patched with its own index; two spans that name each other are linked
both ways, the first by the patch and the second at its insert. So the links
are as acyclic as the parent ids the spans were first sent with, neither more
nor less ([`forest_iff`]).
-/
import Spanfall.Lib.Ascent
import Spanfall.Store.Parents

set_option autoImplicit false

namespace Spanfall

open Lib.Ascent Lib.LastWrite Lib.Runs Relation

namespace Trace

/-- `parent_idx` leads from index `i` to index `j`. -/
def LinkedTo (t : Trace) (i j : ℕ) : Prop := t.parent_idx i = some (some j)

/-- Following `parent_idx` from any resident span reaches a span without
parent. -/
def Forest (t : Trace) : Prop :=
  ∀ i, i < t.span_count → ∃ r, ReflTransGen t.LinkedTo i r ∧ t.parent_idx r = some none

end Trace

/-- The first insert of `a` named `b` as the parent. -/
def NamesParent (calls : List InsertCall) (a b : SpanId) : Prop :=
  first_parent calls a = some (some b)

/-- No span is its own ancestor by the parent ids first sent. -/
def NoParentCycle (calls : List InsertCall) : Prop := ∀ id, ¬TransGen (NamesParent calls) id id

open Trace

section Runs

variable {trace_id : TraceId} {now : UInt64} {calls : List InsertCall} {t : Trace}

/-- The parent column as a table of pointers. -/
def Trace.up (t : Trace) (i : ℕ) : Option ℕ := (t.parent_idx i).join

theorem step_up_iff {i j : ℕ} : Step t.up i j ↔ t.LinkedTo i j := by
  rw [Step, Trace.up, LinkedTo, Option.join_eq_some_iff]

/-- Who named a parent was sent. -/
theorem NamesParent.sent {a b : SpanId} (h : NamesParent calls a b) :
    a ∈ (spans calls).map (·.span_id) := by
  rw [NamesParent, first_parent] at h
  obtain ⟨r, hr, _⟩ := Option.map_eq_some_iff.mp h
  exact firstWith_isSome.mp (Option.isSome_of_eq_some hr)

/-- A link of the trace is a parent id that was sent. -/
theorem names_of_linked (h : (Trace.new trace_id now).inserts calls = some t) {i j : ℕ}
    (hlink : t.LinkedTo i j) :
    ∃ a b, t.span_id i = some a ∧ t.span_id j = some b ∧ NamesParent calls a b := by
  have hl := links_of_inserts h
  have hi : i < t.span_ids.length := by
    have hlt := (List.getElem?_eq_some_iff.mp hlink).1
    rwa [hl.parents, List.length_map, ← hl.length_eq] at hlt
  have ha : t.span_id i = some t.span_ids[i] := List.getElem?_eq_getElem hi
  obtain ⟨r, _, hfirst, hhang⟩ := hangs_under_first h ha
  cases hp : r.parent_span_id with
  | none =>
    -- a root has no link
    rw [hp] at hhang
    have hroot := hhang.1
    rw [show t.parent_idx i = some (some j) from hlink] at hroot
    cases hroot
  | some b =>
    rw [hp] at hfirst hhang
    -- a link leads to the resident parent; an orphan has none
    by_cases hres : ∃ k, t.span_id k = some b
    · obtain ⟨k, hk⟩ := hres
      have hsame := (hhang.1 k hk).1
      rw [show t.parent_idx i = some (some j) from hlink] at hsame
      obtain rfl : j = k := by simpa using hsame
      exact ⟨_, b, ha, hk, hfirst⟩
    · have hroot := (hhang.2 (not_exists.mp hres)).1
      rw [show t.parent_idx i = some (some j) from hlink] at hroot
      cases hroot

/-- A parent id that was sent is a link, once both spans are there. -/
theorem linked_of_names (h : (Trace.new trace_id now).inserts calls = some t) {a b : SpanId}
    (hname : NamesParent calls a b) {i j : ℕ} (hi : t.span_id i = some a)
    (hj : t.span_id j = some b) : t.LinkedTo i j := by
  obtain ⟨r, _, hfirst, hhang⟩ := hangs_under_first h hi
  rw [NamesParent, hfirst, Option.some.injEq] at hname
  rw [hname] at hhang
  exact (hhang.1 j hj).1

/-- A cycle of links is a cycle of parent ids. -/
theorem names_of_linked_path (h : (Trace.new trace_id now).inserts calls = some t) {i j : ℕ}
    (hpath : TransGen t.LinkedTo i j) :
    ∃ a b, t.span_id i = some a ∧ t.span_id j = some b ∧ TransGen (NamesParent calls) a b := by
  induction hpath with
  | single hlink =>
    obtain ⟨a, b, ha, hb, hname⟩ := names_of_linked h hlink
    exact ⟨a, b, ha, hb, TransGen.single hname⟩
  | tail _ hlink ih =>
    obtain ⟨a, b, ha, hb, hpath⟩ := ih
    obtain ⟨b', c, hb', hc, hname⟩ := names_of_linked h hlink
    obtain rfl := Option.some.inj (hb.symm.trans hb')
    exact ⟨a, c, ha, hc, hpath.tail hname⟩

/-- A path of parent ids between resident spans is a path of links: whoever is
on the way named a parent, so it was sent. -/
theorem linked_of_names_path (h : (Trace.new trace_id now).inserts calls = some t) {a b : SpanId}
    (hpath : TransGen (NamesParent calls) a b) {j : ℕ} (hj : t.span_id j = some b) :
    ∀ i, t.span_id i = some a → TransGen t.LinkedTo i j := by
  have hl := links_of_inserts h
  induction hpath using TransGen.head_induction_on with
  | single hname =>
    intro i hi
    exact TransGen.single (linked_of_names h hname hi hj)
  | head hname hrest ih =>
    intro i hi
    obtain ⟨d, hnext, _⟩ := TransGen.head'_iff.mp hrest
    obtain ⟨k, hk⟩ := List.mem_iff_getElem?.mp ((hl.resident_iff _).mpr hnext.sent)
    exact TransGen.head (linked_of_names h hname hi hk) (ih k hk)

/-- In a forest every ascent ends. -/
theorem Trace.Forest.ends (h : t.Forest) {i : ℕ} (hi : i < t.span_count) : Ends t.up i := by
  obtain ⟨r, hpath, hroot⟩ := h i hi
  have hstep : Step t.up = t.LinkedTo := funext fun i => funext fun j => propext step_up_iff
  refine ⟨r, ?_, ?_⟩
  · rw [hstep]
    exact hpath
  · rw [Trace.up, hroot]
    rfl

/-- **The spans of a trace form a forest exactly when the parent ids first sent
have no cycle.** -/
theorem forest_iff (h : (Trace.new trace_id now).inserts calls = some t) :
    t.Forest ↔ NoParentCycle calls := by
  have hl := links_of_inserts h
  have hstep : Step t.up = t.LinkedTo := funext fun i => funext fun j => propext step_up_iff
  have hcount : t.parent_idxs.length = t.span_count := by
    rw [hl.parents, List.length_map, span_count, hl.length_eq]
  constructor
  · -- a span on a cycle is resident, and its links go around with it
    intro hforest id hcycle
    obtain ⟨b, hname, _⟩ := TransGen.head'_iff.mp hcycle
    obtain ⟨i, hi⟩ := List.mem_iff_getElem?.mp ((hl.resident_iff id).mpr hname.sent)
    apply (hforest.ends (List.getElem?_eq_some_iff.mp hi).1).not_on_cycle
    rw [hstep]
    exact linked_of_names_path h hcycle hi i hi
  · intro hacyclic i hi
    have hends : ∀ i ∈ Finset.range t.span_count, Ends t.up i := by
      refine ends_of_acyclic (fun i _ j hij => ?_) fun i _ hcycle => ?_
      · obtain ⟨_, b, _, hb, _⟩ := names_of_linked h (step_up_iff.mp hij)
        exact Finset.mem_range.mpr (List.getElem?_eq_some_iff.mp hb).1
      · rw [hstep] at hcycle
        obtain ⟨a, b, ha, hb, hpath⟩ := names_of_linked_path h hcycle
        obtain rfl := Option.some.inj (ha.symm.trans hb)
        exact hacyclic a hpath
    obtain ⟨r, hpath, hroot⟩ := hends i (Finset.mem_range.mpr hi)
    rw [hstep] at hpath
    refine ⟨r, hpath, ?_⟩
    -- the root is resident, so its column entry is there
    have hr : r < t.span_count := by
      rcases ReflTransGen.cases_tail hpath with rfl | ⟨k, _, hlink⟩
      · exact hi
      · obtain ⟨_, b, _, hb, _⟩ := names_of_linked h hlink
        exact (List.getElem?_eq_some_iff.mp hb).1
    have hin : t.parent_idx r = some t.parent_idxs[r] := List.getElem?_eq_getElem (by omega)
    rw [Trace.up, hin, Option.join_some] at hroot
    rw [hin, hroot]

theorem forest_iff_out_of_order :
    ∃ t, (Trace.new (tid 0) 0).inserts out_of_order = some t
      ∧ (t.Forest ↔ NoParentCycle out_of_order) :=
  have h := (Option.some_get out_of_order_runs).symm
  ⟨_, h, forest_iff h⟩

/-- A span that names itself as its parent. -/
def own_parent : List InsertCall := [call_of 3 (some 3)]

theorem own_parent_runs : ((Trace.new (tid 0) 0).inserts own_parent).isSome := by
  decide +kernel

/-- It is linked to itself: neither a root nor under one. -/
theorem own_parent_no_forest :
    ∃ t, (Trace.new (tid 0) 0).inserts own_parent = some t ∧ ¬t.Forest := by
  refine ⟨Option.get _ own_parent_runs, (Option.some_get _).symm, fun hforest => ?_⟩
  apply (hforest.ends (by decide +kernel : 0 < _)).not_on_cycle
  apply TransGen.single
  rw [step_up_iff, LinkedTo]
  decide +kernel

end Runs

end Spanfall
