/-
`Parents.lean` -- parent resolution over any sequence of inserts into one
trace.

Inserts may come in any order: parents before or after their children,
duplicates, spans that name themselves, several children waiting for one
parent. [`Trace.HangsUnder`] is what the columns should say of a span whose
parent id is given. They say it of the parent id the span *first* came with
([`hangs_under_first`]). They say it of the last one only where the two agree,
because an overwrite does not touch the link (`FollowsLast`).
-/
import Spanfall.Store.TraceLinks

set_option autoImplicit false

namespace Spanfall

open Lib.HashMap Lib.LastWrite Lib.Runs Lib.Vec

/-- The arguments of one `Trace::insert`. The interner is the caller's, and any
interner may stand at any call. -/
structure InsertCall where
  span : NewSpan
  service_name_id : Option UInt32
  key_interner : Interner
  now_unix_nano : UInt64

/-- The spans of a sequence of calls. -/
def spans (calls : List InsertCall) : List NewSpan := calls.map (·.span)

/-- The parent id carried by the first insert of `id`. -/
def first_parent (calls : List InsertCall) (id : SpanId) : Option (Option SpanId) :=
  (firstWith NewSpan.span_id (spans calls) id).map (·.parent_span_id)

/-- The parent id carried by the last insert of `id`. -/
def last_parent (calls : List InsertCall) (id : SpanId) : Option (Option SpanId) :=
  (lastWith NewSpan.span_id (spans calls) id).map (·.parent_span_id)

namespace Trace

def call (t : Trace) (c : InsertCall) : Option Trace :=
  (t.insert c.span c.service_name_id c.key_interner c.now_unix_nano).map (·.1)

def inserts (calls : List InsertCall) (t : Trace) : Option Trace := exec call calls t

/-- The test module's call: a named span, no service, an interner of 100. -/
def call_of (id : UInt8) (parent : Option UInt8) : InsertCall where
  span := Trace.span id parent "span"
  service_name_id := none
  key_interner := Interner.new 100
  now_unix_nano := 0

/-- What the link columns say of span `i` when its parent id is `p`: a root, a
child of the resident span with that id, or an orphan. -/
def HangsUnder (t : Trace) (i : ℕ) : Option SpanId → Prop
  | none => t.parent_idx i = some none ∧ t.is_orphan i = some false
  | some q =>
    (∀ j, t.span_id j = some q → t.parent_idx i = some (some j) ∧ t.is_orphan i = some false)
      ∧ ((∀ j, t.span_id j ≠ some q) →
          t.parent_idx i = some none ∧ t.is_orphan i = some true)

/-- Span `i` is linked as soon as a span with id `q` arrives. -/
def PatchedWhenArrives (t : Trace) (i : ℕ) (q : SpanId) : Prop :=
  ∀ c : InsertCall, c.span.span_id = q →
    ∃ t' j, t.call c = some t' ∧ t'.span_id j = some q ∧ t'.parent_idx i = some (some j)
      ∧ t'.is_orphan i = some false

/-- Every resident span hangs where the last insert of its id says, and an
orphan among them will be patched when that parent arrives. -/
def FollowsLast (t : Trace) (calls : List InsertCall) : Prop :=
  ∀ i id p, t.span_id i = some id → last_parent calls id = some p →
    t.HangsUnder i p
      ∧ ∀ q, p = some q → (∀ j, t.span_id j ≠ some q) → t.PatchedWhenArrives i q

/-- What [`FollowsLast`] comes down to: the last insert of every id names the
same parent as the first. -/
def ParentsUnchanged (calls : List InsertCall) : Prop :=
  ∀ id, first_parent calls id = last_parent calls id

end Trace

open Trace

/-- The links after a sequence of inserts are those of its first arrivals. -/
theorem links_of_inserts {trace_id : TraceId} {now : UInt64} {calls : List InsertCall} {t : Trace}
    (h : (Trace.new trace_id now).inserts calls = some t) : Links t (firsts (spans calls)) := by
  refine exec_induction (P := fun calls t => Links t (firsts (spans calls)))
    (Links.new trace_id now) (fun calls t c t' _ hl hs => ?_) h
  obtain ⟨⟨u, I', out⟩, hi, rfl⟩ := Option.map_eq_some_iff.mp hs
  rw [spans, List.map_append]
  exact hl.insert hi

section Links

variable {t : Trace} {F : List NewSpan}

/-- The link columns at one index, through the index of ids. -/
theorem Links.row_link (h : Links t F) {i : ℕ} {r : NewSpan} (hr : F[i]? = some r) :
    t.parent_idx i = some (r.parent_span_id.bind fun q => t.span_index.lookup q)
      ∧ t.is_orphan i
        = some (r.parent_span_id.any fun q => (t.span_index.lookup q).isNone) := by
  rw [parent_idx, h.parents, List.getElem?_map, hr, is_orphan, h.orphans, List.getElem?_map, hr]
  exact ⟨rfl, rfl⟩

/-- The columns under [`Links`], read at one index. -/
theorem Links.hangs_under (h : Links t F) {i : ℕ} {r : NewSpan} (hr : F[i]? = some r) :
    t.HangsUnder i r.parent_span_id := by
  obtain ⟨hp, ho⟩ := h.row_link hr
  cases hpar : r.parent_span_id with
  | none =>
    rw [hpar] at hp ho
    exact ⟨hp, ho⟩
  | some q =>
    rw [hpar, Option.bind_some] at hp
    rw [hpar, Option.any_some] at ho
    constructor
    · intro j hj
      have hl := (h.index q j).mpr hj
      rw [hl] at hp ho
      exact ⟨hp, ho⟩
    · intro hout
      have hl : t.span_index.lookup q = none := by
        rw [h.index_eq_none, List.mem_iff_getElem?]
        rintro ⟨j, hj⟩
        exact hout j hj
      rw [hl] at hp ho
      exact ⟨hp, ho⟩

/-- A resident span's row in `F`. -/
theorem Links.row_of_span_id (h : Links t F) {i : ℕ} {id : SpanId} (hi : t.span_id i = some id) :
    ∃ r, F[i]? = some r ∧ r.span_id = id := by
  rw [span_id, h.span_ids, List.getElem?_map] at hi
  exact Option.map_eq_some_iff.mp hi

/-- The waiting lists are the orphans, sorted by the parent they wait for. -/
theorem Links.pending_spec (h : Links t F) {q : SpanId} {l : List ℕ} :
    t.pending_children.lookup q = some l
      ↔ l = waiting F q ∧ l ≠ [] ∧ ∀ j, t.span_id j ≠ some q := by
  have hres : (∀ j, t.span_id j ≠ some q) ↔ ¬(t.span_index.lookup q).isSome := by
    rw [h.index_isSome, List.mem_iff_getElem?, not_exists]
    rfl
  rw [hres, h.pending]
  by_cases hs : (t.span_index.lookup q).isSome
  · rw [if_pos (Or.inl hs)]
    exact ⟨nofun, fun h' => absurd hs h'.2.2⟩
  · by_cases hw : waiting F q = []
    · rw [if_pos (Or.inr hw)]
      exact ⟨nofun, fun h' => absurd (h'.1.trans hw) h'.2.1⟩
    · rw [if_neg fun hc => hc.elim hs hw, Option.some.injEq]
      exact ⟨fun e => ⟨e.symm, e ▸ hw, hs⟩, fun e => e.1.symm⟩

/-- No span is a root and has a parent id: the orphan flag tells the two apart
where the link does not. -/
theorem root_or_child {i : ℕ} {q : SpanId} (hroot : t.HangsUnder i none)
    (hchild : t.HangsUnder i (some q)) : False := by
  obtain ⟨hp, ho⟩ := hroot
  by_cases hres : ∃ j, t.span_id j = some q
  · obtain ⟨j, hj⟩ := hres
    have hlink := (hchild.1 j hj).1
    rw [hp] at hlink
    cases hlink
  · have horphan := (hchild.2 (not_exists.mp hres)).2
    rw [ho] at horphan
    cases horphan

/-- **Two parent ids that a span hangs under at once are equal**, or both are
missing. -/
theorem hangs_under_unique {i : ℕ} {p₁ p₂ : Option SpanId}
    (h₁ : t.HangsUnder i p₁) (h₂ : t.HangsUnder i p₂) :
    p₁ = p₂ ∨ ∃ q₁ q₂, p₁ = some q₁ ∧ p₂ = some q₂ ∧ (∀ j, t.span_id j ≠ some q₁)
      ∧ ∀ j, t.span_id j ≠ some q₂ := by
  have resident : ∀ q, (∃ j, t.span_id j = some q) ∨ ∀ j, t.span_id j ≠ some q := fun q => by
    rw [← not_exists]
    exact Classical.em _
  cases p₁ with
  | none =>
    cases p₂ with
    | none => exact Or.inl rfl
    | some q => exact (root_or_child h₁ h₂).elim
  | some q₁ =>
    cases p₂ with
    | none => exact (root_or_child h₂ h₁).elim
    | some q₂ =>
      -- two resident parents have one index, and a missing one shows in the orphan flag
      obtain ⟨j₁, hj₁⟩ | hout₁ := resident q₁ <;> obtain ⟨j₂, hj₂⟩ | hout₂ := resident q₂
      · have e := (h₁.1 j₁ hj₁).1.symm.trans (h₂.1 j₂ hj₂).1
        obtain rfl : j₁ = j₂ := by simpa using e
        exact Or.inl (hj₁.symm.trans hj₂)
      · have e := (h₁.1 j₁ hj₁).2.symm.trans (h₂.2 hout₂).2
        cases e
      · have e := (h₁.2 hout₁).2.symm.trans (h₂.1 j₂ hj₂).2
        cases e
      · exact Or.inr ⟨q₁, q₂, rfl, rfl, hout₁, hout₂⟩

end Links

section Runs

variable {trace_id : TraceId} {now : UInt64} {calls : List InsertCall} {t : Trace}

/-- Every resident span hangs under the parent its first insert named. -/
theorem hangs_under_first (h : (Trace.new trace_id now).inserts calls = some t) {i : ℕ}
    {id : SpanId} (hi : t.span_id i = some id) :
    ∃ r, (firsts (spans calls))[i]? = some r
      ∧ first_parent calls id = some r.parent_span_id ∧ t.HangsUnder i r.parent_span_id := by
  have hl := links_of_inserts h
  obtain ⟨r, hr, rfl⟩ := hl.row_of_span_id hi
  refine ⟨r, hr, ?_, hl.hangs_under hr⟩
  rw [first_parent, firstWrites_getElem? hr]
  rfl

/-- The waiting list of `q` holds the orphans whose first insert named `q`. -/
theorem mem_waiting_iff (h : (Trace.new trace_id now).inserts calls = some t) {q : SpanId}
    (hout : ∀ j, t.span_id j ≠ some q) (i : ℕ) :
    i ∈ waiting (firsts (spans calls)) q
      ↔ t.is_orphan i = some true ∧ ∃ id, t.span_id i = some id
          ∧ first_parent calls id = some (some q) := by
  have hl := links_of_inserts h
  rw [mem_waiting]
  constructor
  · rintro ⟨r, hr, hq⟩
    have hhang := hl.hangs_under hr
    rw [hq] at hhang
    have hid : t.span_id i = some r.span_id := by
      rw [span_id, hl.span_ids, List.getElem?_map, hr]
      rfl
    refine ⟨(hhang.2 hout).2, r.span_id, hid, ?_⟩
    rw [first_parent, firstWrites_getElem? hr, ← hq]
    rfl
  · rintro ⟨_, id, hid, hfirst⟩
    obtain ⟨r, hr, hp, _⟩ := hangs_under_first h hid
    exact ⟨r, hr, Option.some.inj (hp.symm.trans hfirst)⟩

/-- **Parent resolution is exact whatever the arrival order.** Every resident
span hangs where the first insert of its id said, and the queue is the orphans,
each once, sorted by the absent parent they wait for. -/
theorem parents_resolved (h : (Trace.new trace_id now).inserts calls = some t) :
    (∀ i id, t.span_id i = some id →
        ∃ p, first_parent calls id = some p ∧ t.HangsUnder i p)
      ∧ (∀ q l, t.pending_children.lookup q = some l →
          l ≠ [] ∧ l.Nodup ∧ ∀ j, t.span_id j ≠ some q)
      ∧ ∀ q i, (∃ l, t.pending_children.lookup q = some l ∧ i ∈ l)
          ↔ t.is_orphan i = some true
            ∧ ∃ id, t.span_id i = some id ∧ first_parent calls id = some (some q) := by
  have hl := links_of_inserts h
  refine ⟨fun i id hi => ?_, fun q l hq => ?_, fun q i => ?_⟩
  · obtain ⟨r, _, hfirst, hhang⟩ := hangs_under_first h hi
    exact ⟨_, hfirst, hhang⟩
  · obtain ⟨rfl, hne, hout⟩ := hl.pending_spec.mp hq
    exact ⟨hne, waiting_nodup _ _, hout⟩
  · constructor
    · rintro ⟨l, hq, hi⟩
      obtain ⟨rfl, _, hout⟩ := hl.pending_spec.mp hq
      exact (mem_waiting_iff h hout i).mp hi
    · rintro ⟨ho, id, hid, hfirst⟩
      obtain ⟨r, _, hr, hhang⟩ := hangs_under_first h hid
      obtain hpar : some q = r.parent_span_id := Option.some.inj (hfirst.symm.trans hr)
      rw [← hpar] at hhang
      -- an orphan's parent is absent, or the column would say otherwise
      have hout : ∀ j, t.span_id j ≠ some q := fun j hj => by
        have := (hhang.1 j hj).2
        rw [ho] at this
        cases this
      have hi := (mem_waiting_iff h hout i).mpr ⟨ho, id, hid, hfirst⟩
      exact ⟨_, hl.pending_spec.mpr ⟨rfl, List.ne_nil_of_mem hi, hout⟩, hi⟩

/-- A child before its parent, a span that is its own parent, and two spans that
wait for the same one. -/
def out_of_order : List InsertCall :=
  [call_of 2 (some 1), call_of 3 (some 3), call_of 1 none, call_of 4 (some 9), call_of 5 (some 9),
    call_of 4 (some 1)]

theorem out_of_order_runs : ((Trace.new (tid 0) 0).inserts out_of_order).isSome := by
  decide +kernel

theorem parents_resolved_out_of_order :
    ∃ t, (Trace.new (tid 0) 0).inserts out_of_order = some t
      ∧ (∀ i id, t.span_id i = some id →
          ∃ p, first_parent out_of_order id = some p ∧ t.HangsUnder i p)
      ∧ ∃ l, t.pending_children.lookup (sid 9) = some l ∧ 4 ∈ l := by
  have h := (Option.some_get out_of_order_runs).symm
  obtain ⟨hhang, _, hwait⟩ := parents_resolved h
  exact ⟨_, h, hhang, (hwait (sid 9) 4).mpr ⟨by decide +kernel, sid 5, by decide +kernel⟩⟩

/-! ## The last insert's parent

An overwrite leaves the link of the first insert in place, so the columns say
what the last one says only where it says the same. -/

/-- One more insert, of an id that is not resident. -/
theorem arrives (h : (Trace.new trace_id now).inserts calls = some t) {c : InsertCall}
    (hout : ∀ j, t.span_id j ≠ some c.span.span_id) :
    ∃ t', t.call c = some t' ∧ Links t' (firsts (spans calls) ++ [c.span]) := by
  have hl := links_of_inserts h
  have hnew : c.span.span_id ∉ t.span_ids := by
    rw [List.mem_iff_getElem?]
    rintro ⟨j, hj⟩
    exact hout j hj
  obtain ⟨t', I', hins⟩ := hl.insert_new c.service_name_id c.key_interner c.now_unix_nano hnew
  have hnotin : c.span.span_id ∉ (spans calls).map (·.span_id) :=
    fun hin => hnew ((hl.resident_iff _).mpr hin)
  have hl' := hl.insert hins
  rw [firsts_snoc, if_neg hnotin] at hl'
  exact ⟨t', by rw [Trace.call, hins]; rfl, hl'⟩

/-- In a trace with one more row, the rows before it hang where their first
insert says. -/
theorem hangs_under_after (h : (Trace.new trace_id now).inserts calls = some t) {i : ℕ}
    {id : SpanId} {p : Option SpanId} (hi : t.span_id i = some id)
    (hfirst : first_parent calls id = some p) {t' : Trace} {span : NewSpan}
    (hl : Links t' (firsts (spans calls) ++ [span])) : t'.HangsUnder i p := by
  obtain ⟨r, hr, hp, _⟩ := hangs_under_first h hi
  obtain rfl : p = r.parent_span_id := Option.some.inj (hfirst.symm.trans hp)
  have hlt := (List.getElem?_eq_some_iff.mp hr).1
  refine hl.hangs_under ?_
  rw [List.getElem?_append_left hlt, hr]

/-- When the absent parent that a span's *first* insert named arrives, the span
is linked to it. -/
theorem patched_when_arrives (h : (Trace.new trace_id now).inserts calls = some t) {i : ℕ}
    {id q : SpanId} (hi : t.span_id i = some id) (hfirst : first_parent calls id = some (some q))
    (hout : ∀ j, t.span_id j ≠ some q) : t.PatchedWhenArrives i q := by
  rintro c rfl
  obtain ⟨t', hcall, hl'⟩ := arrives h hout
  have hhang := hangs_under_after h hi hfirst hl'
  have hj : t'.span_id (firsts (spans calls)).length = some c.span.span_id := by
    rw [span_id, hl'.span_ids, List.getElem?_map, List.getElem?_concat_length, Option.map_some]
  obtain ⟨hlink, horphan⟩ := hhang.1 _ hj
  exact ⟨t', _, hcall, hj, hlink, horphan⟩

/-- A span is patched by no other absent parent than the one its first insert
named. -/
theorem patched_by_first_only (h : (Trace.new trace_id now).inserts calls = some t) {i : ℕ}
    {id q₁ q₂ : SpanId} (hi : t.span_id i = some id)
    (hfirst : first_parent calls id = some (some q₁)) (hout₁ : ∀ j, t.span_id j ≠ some q₁)
    (hout₂ : ∀ j, t.span_id j ≠ some q₂) (hpatch : t.PatchedWhenArrives i q₂) : q₁ = q₂ := by
  -- any insert that brings `q₂` will do
  let c : InsertCall :=
    { call_of 0 none with span := { Trace.span 0 none "" with span_id := q₂ } }
  by_contra hne
  obtain ⟨t', j, hcall, _, hlink, _⟩ := hpatch c rfl
  obtain ⟨t₂, hcall₂, hl'⟩ := arrives (c := c) h hout₂
  obtain rfl : t₂ = t' := Option.some.inj (hcall₂.symm.trans hcall)
  have hhang := hangs_under_after h hi hfirst hl'
  -- `q₁` is still absent, so the column still says so
  have hout : ∀ j, t₂.span_id j ≠ some q₁ := fun j hj => by
    rw [span_id, hl'.span_ids, List.map_append, ← (links_of_inserts h).span_ids,
      List.map_singleton, getElem?_snoc] at hj
    obtain hj | ⟨_, hj⟩ := hj
    · exact hout₁ j hj
    · exact hne hj.symm
  have := (hhang.2 hout).1
  rw [hlink] at this
  cases this

/-- **The links follow the last insert of every id exactly when it names the
same parent as the first.** -/
theorem follows_last_iff (h : (Trace.new trace_id now).inserts calls = some t) :
    t.FollowsLast calls ↔ ParentsUnchanged calls := by
  have hl := links_of_inserts h
  constructor
  · -- the columns hold the first parent, so the last one is seen only if it is the same
    intro hfollows id
    by_cases hmem : id ∈ (spans calls).map (·.span_id)
    · obtain ⟨i, hi⟩ := List.mem_iff_getElem?.mp ((hl.resident_iff id).mpr hmem)
      obtain ⟨last, hlast⟩ := Option.isSome_iff_exists.mp (lastWith_isSome.mpr hmem)
      have hlast : last_parent calls id = some last.parent_span_id := by
        rw [last_parent, hlast]
        rfl
      obtain ⟨r, _, hfirst, hhang₁⟩ := hangs_under_first h hi
      obtain ⟨hhang₂, hpatch⟩ := hfollows i id _ hi hlast
      rw [hfirst, hlast]
      obtain he | ⟨q₁, q₂, hp₁, hp₂, hout₁, hout₂⟩ := hangs_under_unique hhang₁ hhang₂
      · rw [he]
      · rw [hp₁] at hfirst
        rw [hp₁, hp₂, patched_by_first_only h hi hfirst hout₁ hout₂ (hpatch q₂ hp₂ hout₂)]
    · -- an id that was never sent
      have hfirst := Option.not_isSome_iff_eq_none.mp (firstWith_isSome.not.mpr hmem)
      have hlast := Option.not_isSome_iff_eq_none.mp (lastWith_isSome.not.mpr hmem)
      rw [first_parent, last_parent, hfirst, hlast]
  · intro hsame i id p hi hp
    obtain ⟨r, _, hfirst, hhang⟩ := hangs_under_first h hi
    obtain rfl : r.parent_span_id = p :=
      Option.some.inj (hfirst.symm.trans ((hsame id).trans hp))
    refine ⟨hhang, fun q hq hout => patched_when_arrives h hi ?_ hout⟩
    rw [hfirst, hq]

/-- A span first sent as a root and then, corrected, under its parent. -/
def corrected : List InsertCall := [call_of 1 none, call_of 2 none, call_of 2 (some 1)]

theorem corrected_runs : ((Trace.new (tid 0) 0).inserts corrected).isSome := by
  decide +kernel

theorem follows_last_corrected :
    ∃ t, (Trace.new (tid 0) 0).inserts corrected = some t
      ∧ (t.FollowsLast corrected ↔ ParentsUnchanged corrected) :=
  have h := (Option.some_get corrected_runs).symm
  ⟨_, h, follows_last_iff h⟩

/-- It stays a root. -/
theorem corrected_parent_ignored :
    ∃ t, (Trace.new (tid 0) 0).inserts corrected = some t ∧ ¬t.FollowsLast corrected := by
  refine ⟨Option.get _ corrected_runs, (Option.some_get _).symm, fun hfollows => ?_⟩
  have hlast : last_parent corrected (sid 2) = some (some (sid 1)) := by decide +kernel
  have hhang := (hfollows 1 (sid 2) _ (by decide +kernel) hlast).1
  exact absurd (hhang.1 0 (by decide +kernel)).1 (by decide +kernel)

end Runs

end Spanfall
