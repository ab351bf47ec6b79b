/-
`TraceLinks.lean` -- where a span hangs: `parent_idx`, `orphan`, `span_index`
and `pending_children` together.

The four structures are one function of the list `F` of first arrivals, the
spans as they came the first time their id did, in order. The index maps an id
to its position; a span's parent is the position of the id it named, if that id
has arrived; it is an orphan when it named one that has not; and under every id
that was named but has not arrived wait exactly the positions that named it, in
order ([`Links`]). A new span adds itself to `F`, and the patch loop is what
makes the four agree again ([`Links.push`]); a duplicate touches none of them
([`Links.overwrite`]).
-/
import Spanfall.Lib.LastWrite
import Spanfall.Lib.Runs
import Spanfall.Store.Trace

set_option autoImplicit false

namespace Spanfall

open Lib.Vec Lib.HashMap Lib.LastWrite

/-- The spans as they first arrived, one for each id. -/
def firsts (arrived : List NewSpan) : List NewSpan := firstWrites NewSpan.span_id arrived

/-- The positions in `F` that named `q` as their parent. -/
def waiting (F : List NewSpan) (q : SpanId) : List ℕ :=
  (List.range F.length).filter fun i => decide ((F[i]?.bind (·.parent_span_id)) = some q)

theorem mem_waiting {F : List NewSpan} {q : SpanId} {i : ℕ} :
    i ∈ waiting F q ↔ ∃ r, F[i]? = some r ∧ r.parent_span_id = some q := by
  unfold waiting
  rw [List.mem_filter, List.mem_range, decide_eq_true_eq, Option.bind_eq_some_iff]
  constructor
  · exact fun h => h.2
  · rintro ⟨r, hr, hq⟩
    exact ⟨(List.getElem?_eq_some_iff.mp hr).1, r, hr, hq⟩

theorem waiting_lt {F : List NewSpan} {q : SpanId} {i : ℕ} (h : i ∈ waiting F q) :
    i < F.length := by
  obtain ⟨r, hr, _⟩ := mem_waiting.mp h
  exact (List.getElem?_eq_some_iff.mp hr).1

theorem waiting_nodup (F : List NewSpan) (q : SpanId) : (waiting F q).Nodup :=
  List.nodup_range.filter _

theorem waiting_snoc (F : List NewSpan) (r : NewSpan) (q : SpanId) :
    waiting (F ++ [r]) q = waiting F q ++ if r.parent_span_id = some q then [F.length] else [] := by
  unfold waiting
  rw [List.length_append, List.length_singleton, List.range_succ, List.filter_append]
  congr 1
  · refine List.filter_congr fun i hi => ?_
    rw [List.getElem?_append_left (List.mem_range.mp hi)]
  · by_cases h : r.parent_span_id = some q <;> simp [h]

/-- The links of `t` are those of the first arrivals `F`. -/
structure Links (t : Trace) (F : List NewSpan) : Prop where
  span_ids : t.span_ids = F.map (·.span_id)
  nodup : t.span_ids.Nodup
  index : ∀ id i, t.span_index.lookup id = some i ↔ t.span_ids[i]? = some id
  parents : t.parent_idxs = F.map fun r => r.parent_span_id.bind fun q => t.span_index.lookup q
  orphans : t.orphans
    = F.map fun r => r.parent_span_id.any fun q => (t.span_index.lookup q).isNone
  pending : ∀ q, t.pending_children.lookup q
    = if (t.span_index.lookup q).isSome ∨ waiting F q = [] then none else some (waiting F q)

namespace Links

theorem new (trace_id : TraceId) (now : UInt64) : Links (Trace.new trace_id now) [] where
  span_ids := rfl
  nodup := List.nodup_nil
  index := by simp [Trace.new]
  parents := rfl
  orphans := rfl
  pending := by simp [Trace.new, waiting]

variable {t t' : Trace} {F : List NewSpan}

theorem length_eq (h : Links t F) : t.span_ids.length = F.length := by
  rw [h.span_ids, List.length_map]

theorem index_isSome (h : Links t F) (id : SpanId) :
    (t.span_index.lookup id).isSome ↔ id ∈ t.span_ids := by
  rw [List.mem_iff_getElem?, Option.isSome_iff_exists]
  exact exists_congr fun i => h.index id i

theorem index_eq_none (h : Links t F) (id : SpanId) :
    t.span_index.lookup id = none ↔ id ∉ t.span_ids := by
  rw [← h.index_isSome, Option.not_isSome_iff_eq_none]

/-- The fields that the links read. -/
theorem congr_fields (h : Links t F) (hids : t'.span_ids = t.span_ids)
    (hindex : t'.span_index = t.span_index) (hparents : t'.parent_idxs = t.parent_idxs)
    (horphans : t'.orphans = t.orphans) (hpending : t'.pending_children = t.pending_children) :
    Links t' F where
  span_ids := hids.trans h.span_ids
  nodup := hids ▸ h.nodup
  index := by rw [hids, hindex]; exact h.index
  parents := by rw [hparents, hindex]; exact h.parents
  orphans := by rw [horphans, hindex]; exact h.orphans
  pending := by rw [hpending, hindex]; exact h.pending

/-- **A duplicate leaves the links alone**, whatever parent it names. -/
theorem overwrite (h : Links t F) {idx : ℕ} {span : NewSpan} {svc : Option UInt32}
    {attrs : List (UInt32 × AttrValue)} (ho : t.overwrite_at idx span svc attrs = some t') :
    Links t' F := by
  obtain ⟨_, _, _, hids, hparents, horphans, hindex, hpending, _⟩ := Trace.overwrite_at_frame ho
  exact h.congr_fields hids hindex hparents horphans hpending

/-! ## A new span

Before the patch loop the columns are those of the longer list under the *old*
index; the queue already counts the new span. -/

variable {span : NewSpan} {svc : Option UInt32} {attrs : List (UInt32 × AttrValue)}

/-- The two pushes of `push_parent` are the two readings of "is the parent
resident". -/
theorem push_parent_columns (u : Trace) (idx : ℕ) (p : Option SpanId) :
    (u.push_parent idx p).parent_idxs
        = u.parent_idxs ++ [p.bind fun q => u.span_index.lookup q]
      ∧ (u.push_parent idx p).orphans
        = u.orphans ++ [p.any fun q => (u.span_index.lookup q).isNone] := by
  unfold Trace.push_parent
  cases p with
  | none => exact ⟨rfl, rfl⟩
  | some pid =>
    cases hl : u.span_index.lookup pid with
    | some pidx => simp [hl]
    | none => simp [hl]

/-- `push_parent` queues the span where its parent is missing, and nowhere
else. -/
theorem push_parent_pending (u : Trace) (idx : ℕ) (p : Option SpanId) (q : SpanId) :
    (u.push_parent idx p).pending_children.lookup q
      = if p = some q ∧ u.span_index.lookup q = none
        then some ((u.pending_children.lookup q).getD [] ++ [idx])
        else u.pending_children.lookup q := by
  unfold Trace.push_parent
  cases p with
  | none => simp
  | some pid =>
    dsimp only
    cases hl : u.span_index.lookup pid with
    | some pidx =>
      -- the parent is resident, so the condition on the right cannot hold
      rw [if_neg]
      rintro ⟨hq, hnone⟩
      rw [← Option.some.inj hq, hl] at hnone
      cases hnone
    | none =>
      change (u.pending_children.insert pid _).lookup q = _
      rw [lookup_insert]
      by_cases hq : q = pid
      · subst hq
        rw [if_pos rfl, if_pos ⟨rfl, hl⟩]
      · rw [if_neg hq, if_neg fun hc => hq (Option.some.inj hc.1).symm]

theorem push_span_links (h : Links t F) (span : NewSpan) (svc : Option UInt32)
    (attrs : List (UInt32 × AttrValue)) :
    (t.push_span span svc attrs).span_ids = (F ++ [span]).map (·.span_id)
      ∧ (t.push_span span svc attrs).span_index
          = t.span_index.insert span.span_id t.span_ids.length
      ∧ (t.push_span span svc attrs).parent_idxs
          = (F ++ [span]).map (fun r => r.parent_span_id.bind fun q => t.span_index.lookup q)
      ∧ (t.push_span span svc attrs).orphans
          = (F ++ [span]).map
              (fun r => r.parent_span_id.any fun q => (t.span_index.lookup q).isNone)
      ∧ ∀ q, (t.push_span span svc attrs).pending_children.lookup q
          = if (t.span_index.lookup q).isSome ∨ waiting (F ++ [span]) q = [] then none
            else some (waiting (F ++ [span]) q) := by
  set u := t.push_columns span svc with hu
  have hframe : (u.push_parent t.span_ids.length span.parent_span_id).span_ids = u.span_ids
      ∧ (u.push_parent t.span_ids.length span.parent_span_id).span_index = u.span_index := by
    obtain ⟨_, _, _, e⟩ := Trace.push_parent_frame u t.span_ids.length span.parent_span_id
    rw [e]
    exact ⟨rfl, rfl⟩
  obtain ⟨hparents, horphans⟩ := push_parent_columns u t.span_ids.length span.parent_span_id
  have hpending := push_parent_pending u t.span_ids.length span.parent_span_id
  simp only [List.map_append, List.map_singleton, ← h.span_ids, ← h.parents, ← h.orphans]
  refine ⟨hframe.1, ?_, hparents, horphans, fun q => ?_⟩
  · change (u.push_parent _ _).span_index.insert _ _ = _
    rw [hframe.2]
    rfl
  · refine (hpending q).trans ?_
    change (if _ ∧ t.span_index.lookup q = none
      then some ((t.pending_children.lookup q).getD [] ++ _) else t.pending_children.lookup q) = _
    rw [h.pending, waiting_snoc, h.length_eq]
    -- the queue of `q` grows exactly when the span names `q` and `q` is absent
    by_cases hp : span.parent_span_id = some q
    · by_cases hl : t.span_index.lookup q = none
      · by_cases hw : waiting F q = [] <;> simp [hp, hl, hw]
      · have hsome := Option.isSome_iff_ne_none.mpr hl
        simp [hl, hsome]
    · simp [hp]

/-- The patch loop, as two runs of writes. -/
theorem patch_loop (u : Trace) (idx : ℕ) (cs : List ℕ)
    (hcs : ∀ c ∈ cs, c < u.parent_idxs.length ∧ c < u.orphans.length) :
    ∃ ps os, cs.foldlM (Trace.patch_child idx) u = some { u with parent_idxs := ps, orphans := os }
      ∧ setAll u.parent_idxs cs (some idx) = some ps ∧ setAll u.orphans cs false = some os := by
  induction cs generalizing u with
  | nil => exact ⟨u.parent_idxs, u.orphans, rfl, rfl, rfl⟩
  | cons c cs ih =>
    obtain ⟨hc₁, hc₂⟩ := hcs c (by simp)
    obtain ⟨ps, os, hf, hp, ho⟩ := ih
      { u with parent_idxs := u.parent_idxs.set c (some idx), orphans := u.orphans.set c false }
      (fun d hd => by
        simp only [List.length_set]
        exact hcs d (List.mem_cons_of_mem _ hd))
    refine ⟨ps, os, ?_, ?_, ?_⟩
    · rw [List.foldlM_cons, Trace.patch_child, setAt_of_lt _ hc₁, setAt_of_lt _ hc₂]
      exact hf
    · rw [setAll, List.foldlM_cons, setAt_of_lt _ hc₁]
      exact hp
    · rw [setAll, List.foldlM_cons, setAt_of_lt _ hc₂]
      exact ho

/-- `patch_children` where `cs` is what the new id's queue holds, if there is
one: the queue is drained, and the loop runs over `cs`. -/
theorem patch_drained (u : Trace) {x : SpanId} (idx : ℕ) {cs : List ℕ}
    (hqueue : u.pending_children.lookup x = if cs = [] then none else some cs)
    (hcs : ∀ c ∈ cs, c < u.parent_idxs.length ∧ c < u.orphans.length) :
    ∃ ps os, u.patch_children x idx
        = some { u with pending_children := u.pending_children.erase x,
                        parent_idxs := ps, orphans := os }
      ∧ setAll u.parent_idxs cs (some idx) = some ps ∧ setAll u.orphans cs false = some os := by
  unfold Trace.patch_children
  by_cases hempty : cs = []
  · -- nobody waited: there is no queue to erase, and no loop
    rw [if_pos hempty] at hqueue
    rw [hqueue, hempty]
    exact ⟨u.parent_idxs, u.orphans, by rw [erase_of_notMem hqueue], rfl, rfl⟩
  · rw [if_neg hempty] at hqueue
    rw [hqueue]
    exact patch_loop { u with pending_children := u.pending_children.erase x } idx cs hcs

/-- A column after the patch loop: the waiting rows have the loop's value, the
others what they had. -/
theorem patched_column {β : Type} {F : List NewSpan} {x : SpanId} {old new : NewSpan → β} {v : β}
    {ws : List β} (hset : setAll (F.map old) (waiting F x) v = some ws)
    (hin : ∀ r, r.parent_span_id = some x → new r = v)
    (hout : ∀ r, (∀ q, r.parent_span_id = some q → q ≠ x) → new r = old r) :
    ws = F.map new := by
  have hlt : ∀ c ∈ waiting F x, c < (F.map old).length := by
    intro c hc
    rw [List.length_map]
    exact waiting_lt hc
  obtain ⟨ws', hws', _, hget⟩ := setAll_of_lt v hlt
  obtain rfl : ws = ws' := Option.some.inj (hset.symm.trans hws')
  refine List.ext_getElem? fun i => ?_
  rw [hget, List.length_map, List.getElem?_map, List.getElem?_map]
  cases hi : F[i]? with
  | none =>
    -- past the end nothing waits
    rw [if_neg]
    · rfl
    · rintro ⟨hw, _⟩
      obtain ⟨r, hr, _⟩ := mem_waiting.mp hw
      rw [hi] at hr
      cases hr
  | some r =>
    have hlt := (List.getElem?_eq_some_iff.mp hi).1
    by_cases hw : i ∈ waiting F x
    · obtain ⟨r', hr', hpar⟩ := mem_waiting.mp hw
      obtain rfl : r = r' := Option.some.inj (hi.symm.trans hr')
      rw [if_pos ⟨hw, hlt⟩, Option.map_some, hin r hpar]
    · rw [if_neg fun hc => hw hc.1, Option.map_some, Option.map_some, hout r]
      intro q hq e
      exact hw (mem_waiting.mpr ⟨r, hi, e ▸ hq⟩)

/-- **A new span**: the patch loop ends, and the links are those of the longer
list. -/
theorem push (h : Links t F) (svc : Option UInt32) (attrs : List (UInt32 × AttrValue))
    (hnew : t.span_index.lookup span.span_id = none) :
    ∃ t', (t.push_span span svc attrs).patch_children span.span_id t.span_ids.length = some t'
      ∧ Links t' (F ++ [span]) := by
  obtain ⟨hids, hindex, hparents, horphans, hpending⟩ :=
    h.push_span_links span svc attrs
  set u := t.push_span span svc attrs with hu
  have hlen : u.parent_idxs.length = (F ++ [span]).length
      ∧ u.orphans.length = (F ++ [span]).length := by
    rw [hparents, horphans, List.length_map, List.length_map]
    exact ⟨rfl, rfl⟩
  have hnotin : span.span_id ∉ t.span_ids := (h.index_eq_none _).mp hnew
  have hlookup : ∀ q, (t.span_index.insert span.span_id t.span_ids.length).lookup q
      = if q = span.span_id then some t.span_ids.length else t.span_index.lookup q :=
    fun q => lookup_insert _ _ _ _
  -- the new id was absent, so its queue is all who named it, the span itself included
  have hqueue : u.pending_children.lookup span.span_id
      = if waiting (F ++ [span]) span.span_id = [] then none
        else some (waiting (F ++ [span]) span.span_id) := by
    rw [hpending, hnew]
    simp
  obtain ⟨ps, os, hpatch, hps, hos⟩ := patch_drained u t.span_ids.length hqueue (by
    intro c hc
    rw [hlen.1, hlen.2]
    exact ⟨waiting_lt hc, waiting_lt hc⟩)
  refine ⟨_, hpatch, ?_⟩
  refine { span_ids := hids, nodup := ?_, index := ?_, parents := ?_, orphans := ?_, pending := ?_ }
  · change u.span_ids.Nodup
    rw [hids, List.map_append, ← h.span_ids, List.nodup_append]
    refine ⟨h.nodup, by simp, ?_⟩
    intro a ha b hb hab
    rw [List.map_singleton, List.mem_singleton] at hb
    exact hnotin (hb ▸ hab ▸ ha)
  · intro id i
    change u.span_index.lookup id = some i ↔ u.span_ids[i]? = some id
    -- only the last index has the new id, because it was not resident
    rw [hindex, hlookup, hids, List.map_append, ← h.span_ids, List.map_singleton,
      getElem?_snoc_of_notMem hnotin]
    by_cases hid : id = span.span_id
    · rw [if_pos hid, if_pos hid, Option.some.injEq]
    · rw [if_neg hid, if_neg hid, h.index]
  · change ps = (F ++ [span]).map fun r => r.parent_span_id.bind fun q => u.span_index.lookup q
    rw [hparents] at hps
    -- the two indices differ at the new id alone, and who named it was waiting
    refine patched_column hps (fun r hr => ?_) fun r hr => ?_
    · rw [hr, Option.bind_some, hindex, hlookup, if_pos rfl]
    · cases hp : r.parent_span_id with
      | none => rfl
      | some q =>
        rw [Option.bind_some, Option.bind_some, hindex, hlookup, if_neg (hr q hp)]
  · change os
      = (F ++ [span]).map fun r => r.parent_span_id.any fun q => (u.span_index.lookup q).isNone
    rw [horphans] at hos
    refine patched_column hos (fun r hr => ?_) fun r hr => ?_
    · rw [hr, Option.any_some, hindex, hlookup, if_pos rfl, Option.isNone_some]
    · cases hp : r.parent_span_id with
      | none => rfl
      | some q =>
        rw [Option.any_some, Option.any_some, hindex, hlookup, if_neg (hr q hp)]
  · intro q
    change (u.pending_children.erase span.span_id).lookup q = if (u.span_index.lookup q).isSome
      ∨ waiting (F ++ [span]) q = [] then none else some (waiting (F ++ [span]) q)
    rw [hindex, hlookup, lookup_erase]
    by_cases hq : q = span.span_id
    · -- drained, and resident from now on
      simp [hq]
    · rw [if_neg hq, if_neg hq, hpending]

end Links

/-! ## One insert -/

theorem firsts_snoc (arrived : List NewSpan) (span : NewSpan) :
    firsts (arrived ++ [span])
      = if span.span_id ∈ arrived.map (·.span_id) then firsts arrived
        else firsts arrived ++ [span] := by
  rw [firsts, firstWrites_snoc, keepFirst, firstWrites_keys]
  simp only [List.mem_eraseDups]
  rfl

theorem firsts_ids (arrived : List NewSpan) :
    (firsts arrived).map (·.span_id) = (arrived.map (·.span_id)).eraseDups :=
  firstWrites_keys arrived

namespace Links

variable {t t' : Trace} {arrived : List NewSpan}

theorem resident_iff (h : Links t (firsts arrived)) (id : SpanId) :
    id ∈ t.span_ids ↔ id ∈ arrived.map (·.span_id) := by
  rw [h.span_ids, firsts_ids, List.mem_eraseDups]

/-- **`insert` keeps the links**: on either path they become those of one more
arrival. -/
theorem insert (h : Links t (firsts arrived)) {span : NewSpan} {svc : Option UInt32}
    {I I' : Interner} {now : UInt64} {out : InsertOutcome}
    (hi : t.insert span svc I now = some (t', I', out)) :
    Links t' (firsts (arrived ++ [span])) := by
  have h' : Links { t with last_activity_unix_nano := now } (firsts arrived) :=
    h.congr_fields rfl rfl rfl rfl rfl
  obtain ⟨_, ⟨idx, hl, _, ho⟩ | ⟨hl, _, hp⟩⟩ := Trace.insert_cases hi
  · have hmem : span.span_id ∈ arrived.map (·.span_id) :=
      (h.resident_iff _).mp ((h.index_isSome _).mp (by rw [hl]; rfl))
    rw [firsts_snoc, if_pos hmem]
    exact h'.overwrite ho
  · have hmem : span.span_id ∉ arrived.map (·.span_id) := fun hc =>
      (h.index_eq_none _).mp hl ((h.resident_iff _).mpr hc)
    rw [firsts_snoc, if_neg hmem]
    obtain ⟨t₂, ht₂, hlinks⟩ := h'.push svc (Trace.intern_attrs I span.attributes).1 hl
    obtain rfl : t₂ = t' := Option.some.inj (ht₂.symm.trans hp)
    exact hlinks

/-- A new span is never refused: `insert` can only panic while it overwrites. -/
theorem insert_new (h : Links t (firsts arrived)) {span : NewSpan} (svc : Option UInt32)
    (I : Interner) (now : UInt64) (hnew : span.span_id ∉ t.span_ids) :
    ∃ t' I', t.insert span svc I now
      = some (t', I', { local_idx := t.span_ids.length, is_duplicate := false }) := by
  have hl := (h.index_eq_none _).mpr hnew
  have h' : Links { t with last_activity_unix_nano := now } (firsts arrived) :=
    h.congr_fields rfl rfl rfl rfl rfl
  obtain ⟨t₂, ht₂, _⟩ := h'.push svc (Trace.intern_attrs I span.attributes).1 hl
  refine ⟨t₂, (Trace.intern_attrs I span.attributes).2, ?_⟩
  unfold Trace.insert
  simp only [hl, Option.bind_eq_bind]
  rw [ht₂]
  rfl

end Links

end Spanfall
