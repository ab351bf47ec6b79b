/-
`View.lean` -- what the Read API can see of a store.

The trace handlers never read a trace's last activity, and they read the
interners only to resolve an id or to look a key up. Two stores that agree on
the rest ([`SameView`]) answer every request alike; only the order of the list
of traces may differ, and that is the map's to choose.
-/
import Spanfall.Api.Attributes
import Spanfall.Api.Filter
import Spanfall.Store.Refine

set_option autoImplicit false

namespace Spanfall

open Lib.HashMap Lib.Vec

namespace Store

/-- The two stores differ in nothing that the trace handlers read. -/
structure SameView (s s' : Store) : Prop where
  traces : ∀ id, (s'.trace id).map Trace.forget_activity = (s.trace id).map Trace.forget_activity
  attribute_key : s'.attribute_key = s.attribute_key
  attribute_key_id : s'.attribute_key_id = s.attribute_key_id
  service_name : s'.service_name = s.service_name

variable {s s' : Store}

/-- A trace is absent from both stores, or in both and the same. -/
theorem SameView.trace_cases (h : SameView s s') (id : TraceId) :
    (s.trace id = none ∧ s'.trace id = none)
      ∨ ∃ t t', s.trace id = some t ∧ s'.trace id = some t'
          ∧ t'.forget_activity = t.forget_activity := by
  have ht := h.traces id
  cases hs : s.trace id with
  | none =>
    rw [hs, Option.map_none, Option.map_eq_none_iff] at ht
    exact Or.inl ⟨rfl, ht⟩
  | some t =>
    rw [hs, Option.map_some, Option.map_eq_some_iff] at ht
    obtain ⟨t', ht', he⟩ := ht
    exact Or.inr ⟨t, t', rfl, ht', he⟩

/-! ## One trace -/

theorem trace_payload_congr (h : s'.service_name = s.service_name) {t t' : Trace}
    (ht : t'.forget_activity = t.forget_activity) :
    s'.trace_payload t' = s.trace_payload t := by
  have hrow : s'.push_row t'.forget_activity = s.push_row t.forget_activity := by
    funext acc idx
    rw [push_row, push_row, h, ht]
  change s'.trace_payload t'.forget_activity = s.trace_payload t.forget_activity
  rw [trace_payload, trace_payload, hrow, ht]

theorem attribute_entries_congr (h : s'.attribute_key = s.attribute_key) {t t' : Trace}
    (ht : t'.forget_activity = t.forget_activity) (idx : ℕ) :
    s'.attribute_entries t' idx = s.attribute_entries t idx := by
  change s'.attribute_entries t'.forget_activity idx = s.attribute_entries t.forget_activity idx
  rw [attribute_entries, attribute_entries, h, ht]

/-- Two columns that resolve to the keys and the values of one list. -/
theorem entries_of_columns {keys : List UInt32} {attrs : List (String × AttrValue)}
    (hkeys : keys.mapM s.attribute_key = some (attrs.map Prod.fst)) :
    (keys.zip (attrs.map Prod.snd)).mapM (fun kv => do
        let key ← s.attribute_key kv.1
        return { key, value := kv.2 })
      = some (attrs.map fun kv => { key := kv.1, value := kv.2 : AttributeEntry }) := by
  induction attrs generalizing keys with
  | nil =>
    rw [List.map_nil, List.zip_nil_right]
    rfl
  | cons kv attrs ih =>
    cases keys with
    | nil => cases hkeys
    | cons key keys =>
      obtain ⟨name, names, hname, hnames, heq⟩ := mapM_cons_eq_some.mp hkeys
      obtain ⟨rfl, rfl⟩ := List.cons.inj heq
      rw [List.map_cons, List.zip_cons_cons, List.map_cons]
      refine mapM_cons_eq_some.mpr ⟨_, _, ?_, ih hnames, rfl⟩
      rw [hname]
      rfl

/-- The attributes that are shown of a row. -/
theorem Shows.attribute_entries {t : Trace} {i : ℕ} {keys services : List String}
    {last : NewSpan} (h : Shows s t i keys services last) :
    s.attribute_entries t i = some ((restrict_attrs keys last.attributes).map fun kv =>
      { key := kv.1, value := kv.2 }) := by
  obtain ⟨ids, hcolumn, hresolved⟩ := Option.bind_eq_some_iff.mp h.attribute_keys
  rw [Store.attribute_entries, hcolumn, h.attributes]
  exact entries_of_columns hresolved

theorem parse_query_congr (h : s'.attribute_key_id = s.attribute_key_id) (q : String) :
    parse_query q s' = parse_query q s := by
  have hterm : ∀ text quoted, parse_term text quoted s' = parse_term text quoted s :=
    fun text quoted => by simp only [parse_term, parse_key_term, h]
  have htokens : ∀ tokens, parse_tokens s' tokens = parse_tokens s tokens := fun tokens => by
    induction tokens with
    | nil => rfl
    | cons token rest ih => rw [parse_tokens, parse_tokens, ih, hterm]
  exact htokens _

theorem matches_congr (h : s'.service_name = s.service_name) (term : Term) (t : Trace) (idx : ℕ) :
    term.matches t s' idx = term.matches t s idx := by
  unfold Term.matches
  rw [h]

theorem matching_indices_congr (h : s'.service_name = s.service_name) (terms : List Term)
    (t : Trace) (idxs : List ℕ) :
    matching_indices terms t s' idxs = matching_indices terms t s idxs := by
  induction idxs with
  | nil => rfl
  | cons idx rest ih =>
    rw [matching_indices, matching_indices, ih]
    simp only [matches_congr h]

theorem filter_trace_congr (h : SameView s s') {t t' : Trace}
    (ht : t'.forget_activity = t.forget_activity) (q : String) :
    s'.filter_trace t' q = s.filter_trace t q := by
  have forget : ∀ (s : Store) (t : Trace), s.filter_trace t q = s.filter_trace t.forget_activity q :=
    fun s t => by
      have hidx : ∀ terms idxs, matching_indices terms t s idxs
          = matching_indices terms t.forget_activity s idxs := fun terms idxs => by
        induction idxs with
        | nil => rfl
        | cons idx rest ih =>
          rw [matching_indices, matching_indices, ih]
          rfl
      simp only [filter_trace, hidx]
      rfl
  rw [forget s', forget s, ht]
  simp only [filter_trace, parse_query_congr h.attribute_key_id,
    matching_indices_congr h.service_name]

theorem summarize_congr (h : s'.service_name = s.service_name) (id : TraceId) {t t' : Trace}
    (ht : t'.forget_activity = t.forget_activity) : s'.summarize id t' = s.summarize id t := by
  change s'.summarize id t'.forget_activity = s.summarize id t.forget_activity
  rw [summarize, summarize, trace_services, trace_services, h, ht]

/-! ## The handlers -/

/-- What a payload reads of a trace is all that `get_trace` reads of the
stores. -/
theorem get_trace_map {f : Trace → Trace}
    (hf : ∀ t t', f t' = f t → s'.trace_payload t' = s.trace_payload t)
    (h : ∀ id, (s'.trace id).map f = (s.trace id).map f) (id : String) :
    s'.get_trace id = s.get_trace id := by
  unfold Store.get_trace
  cases TraceId.from_hex id with
  | none => rfl
  | some trace_id =>
    dsimp only
    have ht := h trace_id
    cases hs : s.trace trace_id with
    | none =>
      rw [hs, Option.map_none, Option.map_eq_none_iff] at ht
      rw [ht]
    | some t =>
      rw [hs, Option.map_some, Option.map_eq_some_iff] at ht
      obtain ⟨t', hs', ht'⟩ := ht
      rw [hs']
      dsimp only
      rw [hf t t' ht']

theorem SameView.get_trace (h : SameView s s') (id : String) :
    s'.get_trace id = s.get_trace id :=
  get_trace_map (fun _ _ ht => trace_payload_congr h.service_name ht) h.traces id

theorem SameView.get_attributes (h : SameView s s') (id : String) (idx : ℕ) :
    s'.get_attributes id idx = s.get_attributes id idx := by
  unfold Store.get_attributes
  cases TraceId.from_hex id with
  | none => rfl
  | some trace_id =>
    dsimp only
    obtain ⟨hs, hs'⟩ | ⟨t, t', hs, hs', ht⟩ := h.trace_cases trace_id
    · rw [hs, hs']
    · have hcount : t'.span_count = t.span_count := by
        change t'.forget_activity.span_count = t.forget_activity.span_count
        rw [ht]
      rw [hs, hs']
      dsimp only
      rw [hcount, attribute_entries_congr h.attribute_key ht]

theorem SameView.get_filter (h : SameView s s') (id : String) (q : Option String) :
    s'.get_filter id q = s.get_filter id q := by
  unfold Store.get_filter
  cases TraceId.from_hex id with
  | none => rfl
  | some trace_id =>
    dsimp only
    obtain ⟨hs, hs'⟩ | ⟨t, t', hs, hs', ht⟩ := h.trace_cases trace_id
    · rw [hs, hs']
    · rw [hs, hs']
      dsimp only
      rw [filter_trace_congr h ht]

/-- What a summary reads of a trace is all that `list_traces` reads of the
stores, as multisets and whatever the walking orders. -/
theorem list_traces_map {f : Trace → Trace}
    (hf : ∀ id t, s.summarize id (f t) = s.summarize id t)
    (hf' : ∀ id t, s.summarize id (f t) = s'.summarize id t)
    (h : ∀ id, (s'.trace id).map f = (s.trace id).map f) (order order' : TraceOrder) :
    (s'.list_traces order').map Multiset.ofList = (s.list_traces order).map Multiset.ofList := by
  -- a summary is a function of the id and of what `f` leaves of the trace
  have forget : ∀ (u : Store) (o : TraceOrder),
      (∀ id t, s.summarize id (f t) = u.summarize id t) →
      u.list_traces o = ((o.iter u.traces).map fun e => (e.1, f e.2)).mapM
        fun p => s.summarize p.1 p.2 := fun u o hu => by
    rw [Store.list_traces, List.mapM_map]
    congr 1
    funext e
    exact (hu e.1 e.2).symm
  have hperm : ((order'.iter s'.traces).map fun e => (e.1, f e.2)).Perm
      ((order.iter s.traces).map fun e => (e.1, f e.2)) := by
    have := entries_map_eq (f := f) h
    rwa [← order'.coe_iter, ← order.coe_iter, Multiset.map_coe, Multiset.map_coe,
      Multiset.coe_eq_coe] at this
  rw [forget s' order' hf', forget s order hf]
  exact mapM_perm hperm

theorem SameView.list_traces (h : SameView s s') (order order' : TraceOrder) :
    (s'.list_traces order').map Multiset.ofList = (s.list_traces order).map Multiset.ofList :=
  list_traces_map (f := Trace.forget_activity) (fun _ _ => rfl)
    (fun id _ => (summarize_congr h.service_name id rfl).symm) h.traces order order'

end Store

end Spanfall
