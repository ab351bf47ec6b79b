/-
`Bare.lean` -- a trace without its attributes.

Attributes flow into three columns and into nothing else: every other column,
the links and the index of a trace are those of a trace that was sent the same
spans without attributes ([`Trace.insert_bare`]). Such a trace is never near
the attribute limit, so what is proved under the limit holds of these columns
in every run that ends ([`Store.bare_of_run`]).
-/
import Spanfall.Store.Bookkeeping
import Spanfall.Store.Refine

set_option autoImplicit false

namespace Spanfall

open Lib.HashMap Lib.LastWrite Lib.Runs Lib.Vec

/-- A span without its attributes. -/
def NewSpan.bare (self : NewSpan) : NewSpan := { self with attributes := [] }

namespace Trace

/-- A trace without its attributes, and without its last activity. -/
def bare (self : Trace) : Trace :=
  { self with last_activity_unix_nano := 0, attr_keys := [], attr_values := [], attr_offsets := [] }

/-! ## One insert -/

section Insert

variable {t t' u u' : Trace} {span : NewSpan} {svc : Option UInt32}
  {attrs attrs' : List (UInt32 × AttrValue)}

theorem overwrite_bare {idx : ℕ} (hb : u.bare = t.bare)
    (h : t.overwrite_at idx span svc attrs = some t')
    (h' : u.overwrite_at idx span.bare svc attrs' = some u') : u'.bare = t'.bare := by
  obtain ⟨_, _, _, _, _, _, _, _, _, rfl⟩ := overwrite_at_cases h
  obtain ⟨_, _, _, _, _, _, _, _, _, rfl⟩ := overwrite_at_cases h'
  simp only [bare, mk.injEq] at hb
  obtain ⟨hid, hgen, _, hids, hnames, hparents, hstart, hend, hmsg, hcode, horphan, hunk, hsvc, _,
    _, _, hindex, hpending⟩ := hb
  simp only [bare, hid, hgen, hids, hnames, hparents, hstart, hend, hmsg, hcode, horphan, hunk,
    hsvc, hindex, hpending, NewSpan.bare]

/-- The pushes for the parent read none of the attributes. -/
theorem push_parent_bare (t : Trace) (idx : ℕ) (parent : Option SpanId) :
    (t.push_parent idx parent).bare = (t.bare.push_parent idx parent).bare := by
  cases parent with
  | none => rfl
  | some pid =>
    have hindex : t.bare.span_index = t.span_index := rfl
    simp only [push_parent, hindex]
    cases t.span_index.lookup pid with
    | none => rfl
    | some pidx => rfl

theorem push_span_bare (t : Trace) (span : NewSpan) (svc : Option UInt32)
    (attrs : List (UInt32 × AttrValue)) :
    (t.push_span span svc attrs).bare = (t.bare.push_span span.bare svc []).bare := by
  have hparent := push_parent_bare (t.push_columns span svc) t.span_ids.length span.parent_span_id
  have hindexed : ∀ v w : Trace, v.bare = w.bare → ∀ vs ws : List (UInt32 × AttrValue),
      ({ v.push_attrs vs with
          span_index := (v.push_attrs vs).span_index.insert span.span_id t.span_ids.length }).bare
        = ({ w.push_attrs ws with
          span_index := (w.push_attrs ws).span_index.insert span.span_id t.span_ids.length }).bare := by
    intro v w hvw vs ws
    simp only [bare, mk.injEq] at hvw
    simp only [bare, push_attrs, hvw]
  exact hindexed _ _ hparent _ _

theorem patch_child_bare (idx : ℕ) (t : Trace) (child : ℕ) :
    patch_child idx t.bare child = (patch_child idx t child).map bare := by
  have hparents : t.bare.parent_idxs = t.parent_idxs := rfl
  have horphans : t.bare.orphans = t.orphans := rfl
  simp only [patch_child, hparents, horphans]
  cases setAt t.parent_idxs child (some idx) with
  | none => rfl
  | some parents =>
    cases setAt t.orphans child false with
    | none => rfl
    | some orphans => rfl

theorem patch_children_bare (t : Trace) (id : SpanId) (idx : ℕ) :
    t.bare.patch_children id idx = (t.patch_children id idx).map bare := by
  have loop : ∀ (cs : List ℕ) (t : Trace),
      cs.foldlM (patch_child idx) t.bare = (cs.foldlM (patch_child idx) t).map bare := by
    intro cs
    induction cs with
    | nil => exact fun _ => rfl
    | cons c cs ih =>
      intro t
      rw [List.foldlM_cons, List.foldlM_cons, patch_child_bare]
      cases patch_child idx t c with
      | none => rfl
      | some t₁ => exact ih t₁
  have hpending : t.bare.pending_children = t.pending_children := rfl
  simp only [patch_children, hpending]
  cases t.pending_children.lookup id with
  | none => rfl
  | some children => exact loop children { t with pending_children := t.pending_children.erase id }

/-- A new row, read back without attributes. -/
theorem new_row_bare {id : SpanId} {idx : ℕ}
    (h : (t.push_span span svc attrs).patch_children id idx = some t') :
    (t.bare.push_span span.bare svc []).bare.patch_children id idx = some t'.bare := by
  rw [← push_span_bare t span svc attrs, patch_children_bare, h, Option.map_some]

theorem touch_bare (t : Trace) (now : UInt64) :
    bare { t with last_activity_unix_nano := now } = t.bare := rfl

/-- **No column but the attributes' depends on attributes**: two traces that
differ only in attributes differ only in attributes after a span, whatever the
span carries and whenever it comes. -/
theorem insert_bare {I I' J J' : Interner} {now now' : UInt64} {out out' : InsertOutcome}
    (hb : u.bare = t.bare) (h : t.insert span svc I now = some (t', I', out))
    (h' : u.insert span.bare svc J now' = some (u', J', out')) : u'.bare = t'.bare := by
  have hindex : u.span_index = t.span_index := congrArg (·.span_index) hb
  have hids : u.span_ids = t.span_ids := congrArg (·.span_ids) hb
  have hid : span.bare.span_id = span.span_id := rfl
  have hbare : span.bare.bare = span.bare := rfl
  obtain ⟨_, hcase⟩ := insert_cases h
  obtain ⟨_, hcase'⟩ := insert_cases h'
  obtain ⟨idx, hl, _, ho⟩ | ⟨hl, _, hp⟩ := hcase
  · obtain ⟨idx', hl', _, ho'⟩ | ⟨hl', _, _⟩ := hcase'
    · rw [hid, hindex, hl] at hl'
      obtain rfl : idx = idx' := Option.some.inj hl'
      rw [← touch_bare u now', ← touch_bare t now] at hb
      exact overwrite_bare hb ho ho'
    · rw [hid, hindex, hl] at hl'
      cases hl'
  · obtain ⟨idx', hl', _, _⟩ | ⟨_, _, hp'⟩ := hcase'
    · rw [hid, hindex, hl] at hl'
      cases hl'
    · -- both push the same row, and then patch the same children
      have hrow := new_row_bare hp
      have hrow' := new_row_bare hp'
      rw [touch_bare t now] at hrow
      rw [touch_bare u now', hb, hids, hbare] at hrow'
      exact Option.some.inj (hrow'.symm.trans hrow)

end Insert

end Trace

/-! ## A run -/

namespace Store

variable {m : ℕ} {es : List Event} {s s' : Store}

/-- A trace that was sent the spans `arrived` without attributes. -/
def BareHolds (svc : Interner) (u : Trace) (arrived : List NewSpan) : Prop :=
  u.Holds (Interner.new GLOBAL_INTERNER_CAP) svc (arrived.map NewSpan.bare)

theorem BareHolds.no_attrs {svc : Interner} {u : Trace} {arrived : List NewSpan}
    (h : BareHolds svc u arrived) : u.attr_keys = [] := by
  rw [h.columns.attr_keys]
  apply List.flatten_eq_nil_iff.mpr
  intro row hrow
  obtain ⟨kept, hkept, rfl⟩ := List.mem_map.mp hrow
  obtain ⟨r, _, rfl⟩ := List.mem_map.mp hkept
  -- an interner that was shown nothing keeps nothing
  simp [kept_attrs, Interner.lookup, Interner.new]

/-- `arrived` describes all of `s` but its attributes. -/
structure Bare (s : Store) (ss : List String) (arrived : TraceId → List NewSpan) : Prop where
  shown : ∀ id, ∀ r ∈ arrived id, ∀ n, r.service_name = some n → n ∈ ss
  resident : ∀ id t, s.trace id = some t →
    ∃ u, u.bare = t.bare ∧ BareHolds s.service_interner u (arrived id)
  absent : ∀ id, s.trace id = none → arrived id = []

theorem new_bare (m : ℕ) : (new m).Bare [] fun _ => [] where
  shown _ r hr := absurd hr List.not_mem_nil
  resident id t ht := by
    rw [new_trace] at ht
    cases ht
  absent _ _ := rfl

/-- A service interner that has been shown more still describes the trace. -/
theorem BareHolds.grown {I J : Interner} {ss js : List String} {u : Trace}
    {arrived : List NewSpan} (h : BareHolds I u arrived) (hI : I.Holds ss)
    (hJ : J.Holds (ss ++ js)) (hcap : J.cap = I.cap)
    (hshown : ∀ r ∈ arrived, ∀ n, r.service_name = some n → n ∈ ss) : BareHolds J u arrived := by
  apply h.congr_interners (fun _ _ _ _ => rfl)
  intro r hr n hn
  obtain ⟨r₀, hr₀, rfl⟩ := List.mem_map.mp hr
  exact hI.lookup_stable hJ hcap (hshown r₀ hr₀ n hn)

/-- **An insert** is one more arrival. -/
theorem Bare.insert {ss : List String} {arrived : TraceId → List NewSpan} (h : s.Bare ss arrived)
    (hss : s.service_interner.Holds ss) {trace_id : TraceId} {span : NewSpan} {now : UInt64}
    {out : StoreInsertOutcome} (hins : s.insert_span_no_evict trace_id span now = some (s', out)) :
    s'.Bare (ss ++ span.service_name.toList)
      fun id => if id = trace_id then arrived id ++ [span] else arrived id := by
  obtain ⟨t', o, htins, htraces, hsvc', _⟩ := insert_cases hins
  obtain ⟨hsvc, hscap, hid⟩ := intern_service_spec hss span.service_name
  rw [hid] at htins
  rw [← hsvc'] at hsvc hscap htins
  refine { shown := fun id r hr n hn => ?_, resident := fun id t ht => ?_,
           absent := fun id hn => ?_ }
  · have hold : r ∈ arrived id → n ∈ ss ++ span.service_name.toList := fun hr =>
      List.mem_append_left _ (h.shown id r hr n hn)
    by_cases hid : id = trace_id
    · rw [if_pos hid, List.mem_append, List.mem_singleton] at hr
      obtain hr | rfl := hr
      · exact hold hr
      · exact List.mem_append_right _ (by rw [hn]; exact List.mem_singleton_self n)
    · rw [if_neg hid] at hr
      exact hold hr
  · rw [trace_insert htraces] at ht
    by_cases hid : id = trace_id
    · -- the entry's companion takes the span without its attributes
      rw [if_pos hid, Option.some.injEq] at ht
      rw [if_pos hid, hid, ← ht]
      obtain ⟨u, hu, hholds⟩ : ∃ u, u.bare = (s.entry trace_id now).1.bare
          ∧ BareHolds s'.service_interner u (arrived trace_id) := by
        cases hold : s.trace trace_id with
        | some t₀ =>
          obtain ⟨u, hu, hholds⟩ := h.resident trace_id t₀ hold
          rw [entry_of_some hold]
          exact ⟨u, hu, hholds.grown hss hsvc hscap (h.shown trace_id)⟩
        | none =>
          rw [h.absent trace_id hold]
          obtain ⟨hcols, hlinks⟩ := Trace.new_holds trace_id now
            (Interner.new GLOBAL_INTERNER_CAP) s'.service_interner
          rw [entry_of_none hold]
          exact ⟨_, rfl, { hcols with }, hlinks.congr_fields rfl rfl rfl rfl rfl⟩
      have hkey : (Interner.new GLOBAL_INTERNER_CAP).Holds [] := Interner.new_holds (by decide)
      obtain ⟨u', o', huins, hholds'⟩ := Trace.Holds.insert hholds hkey
        (fun r hr kv hkv => by
          obtain ⟨r₀, _, rfl⟩ := List.mem_map.mp hr
          cases hkv)
        span.bare now (hholds.columns.unwrapped (by rw [hholds.no_attrs]; decide) _)
      refine ⟨u', Trace.insert_bare hu htins huins, ?_⟩
      rw [BareHolds, List.map_append]
      exact hholds'
    · rw [if_neg hid] at ht
      rw [if_neg hid]
      obtain ⟨u, hu, hholds⟩ := h.resident id t ht
      exact ⟨u, hu, hholds.grown hss hsvc hscap (h.shown id)⟩
  · rw [trace_insert htraces] at hn
    by_cases hid : id = trace_id
    · rw [if_pos hid] at hn
      cases hn
    · rw [if_neg hid] at hn
      rw [if_neg hid, h.absent id hn]

/-- **A sweep** forgets what arrived in the traces it takes. -/
theorem Bare.sweep {ss : List String} {arrived : TraceId → List NewSpan} (h : s.Bare ss arrived)
    (hswept : s.Swept s') :
    s'.Bare ss fun id => if (s'.trace id).isSome then arrived id else [] := by
  refine { shown := fun id r hr => ?_, resident := fun id t ht => ?_, absent := fun id hn => ?_ }
  · by_cases hin : (s'.trace id).isSome
    · rw [if_pos hin] at hr
      exact h.shown id r hr
    · rw [if_neg hin] at hr
      cases hr
  · rw [if_pos (by rw [ht]; rfl), hswept.service_interner]
    exact h.resident id t (hswept.kept id t ht)
  · rw [if_neg (by rw [hn]; exact Bool.false_ne_true)]

/-- **The run lemma**: below the attribute limit or past it, a run that ends
has put all but the attributes of what arrived into its traces. -/
theorem bare_of_run (h : exec step es (new m) = some s) :
    s.Bare (services_shown es) (arrivals es (new m)) := by
  refine exec_induction (P := fun es s => s.Bare (services_shown es) (arrivals es (new m)))
    (new_bare m) (fun es s e s' hrun ih hs => ?_) h
  obtain ⟨_, hss, _⟩ := interners_of_run hrun
  rw [services_shown_snoc, arrivals, ghost_snoc hrun hs]
  cases e with
  | insert trace_id span now =>
    obtain ⟨⟨s₁, out⟩, hins, rfl⟩ := Option.map_eq_some_iff.mp hs
    exact ih.insert hss hins
  | malformed count =>
    obtain rfl := Option.some.inj hs
    rw [Event.services, List.append_nil]
    exact ⟨ih.shown, ih.resident, ih.absent⟩
  | sweep order =>
    rw [Event.services, List.append_nil]
    exact ih.sweep (sweep_of_evict hs).swept

end Store

end Spanfall
