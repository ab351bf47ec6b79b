/-
`Trace.lean` -- `src/store/trace.rs`: one trace's spans as parallel columns.

A function here returns `none` where the Rust one panics: on a column index, a
slice or a splice out of range. The columns that the source names like their
accessor (`parent_idx`, `status_code`, …) have the plural here, and the
accessor keeps the source's name.

`attr_offsets` holds `u32`s and the casts into it truncate, as the source's do:
past `2 ^ 32` attributes in one trace an offset wraps, and the slices cut with
it are wrong or panic. Nothing in the code stops a trace from getting there, so
the theorems that read attributes say where they need the trace to be smaller.
-/
import Spanfall.Lib.Vec
import Spanfall.Store.Interner

set_option autoImplicit false

namespace Spanfall

open Lib.Vec

/-- `NewSpan`: a span on its way into the store. -/
structure NewSpan where
  span_id : SpanId
  parent_span_id : Option SpanId
  name : String
  start_time_unix_nano : UInt64
  end_time_unix_nano : UInt64
  status_message : String
  status_code : Int32
  unknown_service : Bool
  service_name : Option String
  attributes : List (String × AttrValue)
  deriving DecidableEq

structure InsertOutcome where
  local_idx : ℕ
  is_duplicate : Bool
  deriving DecidableEq

/-- `Trace`. Span `i`'s attributes are the entries `attr_offsets[i]` up to
`attr_offsets[i + 1]` of the two dense arrays. -/
structure Trace where
  trace_id : TraceId
  generation : UInt32
  last_activity_unix_nano : UInt64
  span_ids : List SpanId
  names : List String
  parent_idxs : List (Option ℕ)
  start_times_unix_nano : List UInt64
  end_times_unix_nano : List UInt64
  status_messages : List String
  status_codes : List Int32
  orphans : List Bool
  unknown_services : List Bool
  service_name_ids : List (Option UInt32)
  attr_keys : List UInt32
  attr_values : List AttrValue
  attr_offsets : List UInt32
  span_index : FxHashMap SpanId ℕ
  pending_children : FxHashMap SpanId (List ℕ)

namespace Trace

/-- `Trace::new`: the offsets' sentinel is there from the start. -/
def new (trace_id : TraceId) (now_unix_nano : UInt64) : Trace where
  trace_id := trace_id
  generation := 0
  last_activity_unix_nano := now_unix_nano
  span_ids := []
  names := []
  parent_idxs := []
  start_times_unix_nano := []
  end_times_unix_nano := []
  status_messages := []
  status_codes := []
  orphans := []
  unknown_services := []
  service_name_ids := []
  attr_keys := []
  attr_values := []
  attr_offsets := [0]
  span_index := ∅
  pending_children := ∅

/-! ## Accessors -/

def span_count (self : Trace) : ℕ := self.span_ids.length

def is_orphan (self : Trace) (idx : ℕ) : Option Bool := self.orphans[idx]?

def parent_idx (self : Trace) (idx : ℕ) : Option (Option ℕ) := self.parent_idxs[idx]?

def name (self : Trace) (idx : ℕ) : Option String := self.names[idx]?

def span_id (self : Trace) (idx : ℕ) : Option SpanId := self.span_ids[idx]?

def service_name_id (self : Trace) (idx : ℕ) : Option (Option UInt32) := self.service_name_ids[idx]?

def start_time_unix_nano (self : Trace) (idx : ℕ) : Option UInt64 :=
  self.start_times_unix_nano[idx]?

def end_time_unix_nano (self : Trace) (idx : ℕ) : Option UInt64 := self.end_times_unix_nano[idx]?

def status_message (self : Trace) (idx : ℕ) : Option String := self.status_messages[idx]?

def status_code (self : Trace) (idx : ℕ) : Option Int32 := self.status_codes[idx]?

def unknown_service (self : Trace) (idx : ℕ) : Option Bool := self.unknown_services[idx]?

/-- `duration_nanos`: here `none` is the source's own `None`, not a panic. -/
def duration_nanos (self : Trace) : Option UInt64 := do
  let earliest_start ← self.start_times_unix_nano.min?
  let latest_end ← self.end_times_unix_nano.max?
  checked_sub latest_end earliest_start

def attributes (self : Trace) (idx : ℕ) : Option (List AttrValue) := do
  let start ← self.attr_offsets[idx]?
  let stop ← self.attr_offsets[idx + 1]?
  slice self.attr_values start.toNat stop.toNat

def attribute_keys (self : Trace) (idx : ℕ) : Option (List UInt32) := do
  let start ← self.attr_offsets[idx]?
  let stop ← self.attr_offsets[idx + 1]?
  slice self.attr_keys start.toNat stop.toNat

/-! ## Insertion -/

/-- The `filter_map` at the head of `insert`: every key is presented to the
interner, and a pair whose key is refused is dropped. -/
def intern_attrs (key_interner : Interner) :
    List (String × AttrValue) → List (UInt32 × AttrValue) × Interner
  | [] => ([], key_interner)
  | (k, v) :: rest =>
    let (id, key_interner) := key_interner.intern k
    let (out, key_interner) := intern_attrs key_interner rest
    match id with
    | some id => ((id, v) :: out, key_interner)
    | none => (out, key_interner)

/-- `Trace::overwrite_at`: every column but the parent's is rewritten in place,
the span's attributes are spliced, and the later offsets shift by the change of
length. The sum is taken in `i64` and cast back to `u32`. -/
def overwrite_at (self : Trace) (idx : ℕ) (span : NewSpan) (service_name_id : Option UInt32)
    (interned_attrs : List (UInt32 × AttrValue)) : Option Trace := do
  let names ← setAt self.names idx span.name
  let start_times_unix_nano ← setAt self.start_times_unix_nano idx span.start_time_unix_nano
  let end_times_unix_nano ← setAt self.end_times_unix_nano idx span.end_time_unix_nano
  let status_messages ← setAt self.status_messages idx span.status_message
  let status_codes ← setAt self.status_codes idx span.status_code
  let unknown_services ← setAt self.unknown_services idx span.unknown_service
  let service_name_ids ← setAt self.service_name_ids idx service_name_id
  let old_start ← self.attr_offsets[idx]?
  let old_end ← self.attr_offsets[idx + 1]?
  let new_len := interned_attrs.length
  let attr_keys ←
    splice self.attr_keys old_start.toNat old_end.toNat (interned_attrs.map Prod.fst)
  let attr_values ←
    splice self.attr_values old_start.toNat old_end.toNat (interned_attrs.map Prod.snd)
  let delta : ℤ := (new_len : ℤ) - ((old_end.toNat - old_start.toNat : ℕ) : ℤ)
  let attr_offsets := self.attr_offsets.take (idx + 1)
    ++ (self.attr_offsets.drop (idx + 1)).map fun off => UInt32.ofInt ((off.toNat : ℤ) + delta)
  return { self with
    names, start_times_unix_nano, end_times_unix_nano, status_messages, status_codes,
    unknown_services, service_name_ids, attr_keys, attr_values, attr_offsets }

/-- The pushes of `insert`'s new-span path that copy a field. -/
def push_columns (self : Trace) (span : NewSpan) (service_name_id : Option UInt32) : Trace :=
  { self with
    span_ids := self.span_ids ++ [span.span_id]
    names := self.names ++ [span.name]
    start_times_unix_nano := self.start_times_unix_nano ++ [span.start_time_unix_nano]
    end_times_unix_nano := self.end_times_unix_nano ++ [span.end_time_unix_nano]
    status_messages := self.status_messages ++ [span.status_message]
    status_codes := self.status_codes ++ [span.status_code]
    unknown_services := self.unknown_services ++ [span.unknown_service]
    service_name_ids := self.service_name_ids ++ [service_name_id] }

/-- The `match` on the parent, with its two pushes: a parent not seen yet
queues the span under the parent's id. The span itself is not in `span_index`
yet, so a span that names itself as parent queues under its own id. -/
def push_parent (self : Trace) (idx : ℕ) (parent_span_id : Option SpanId) : Trace :=
  match parent_span_id with
  | none =>
    { self with parent_idxs := self.parent_idxs ++ [none], orphans := self.orphans ++ [false] }
  | some pid =>
    match self.span_index.lookup pid with
    | some pidx =>
      { self with
        parent_idxs := self.parent_idxs ++ [some pidx], orphans := self.orphans ++ [false] }
    | none =>
      { self with
        pending_children := self.pending_children.insert pid
          ((self.pending_children.lookup pid).getD [] ++ [idx])
        parent_idxs := self.parent_idxs ++ [none]
        orphans := self.orphans ++ [true] }

/-- The attribute pushes and the new end offset, cast with `as u32`. -/
def push_attrs (self : Trace) (interned_attrs : List (UInt32 × AttrValue)) : Trace :=
  let attr_keys := self.attr_keys ++ interned_attrs.map Prod.fst
  { self with
    attr_keys
    attr_values := self.attr_values ++ interned_attrs.map Prod.snd
    attr_offsets := self.attr_offsets ++ [UInt32.ofNat attr_keys.length] }

/-- `insert`'s new-span path up to the patch loop. -/
def push_span (self : Trace) (span : NewSpan) (service_name_id : Option UInt32)
    (interned_attrs : List (UInt32 × AttrValue)) : Trace :=
  let idx := self.span_ids.length
  let self := self.push_columns span service_name_id
  let self := self.push_parent idx span.parent_span_id
  let self := self.push_attrs interned_attrs
  { self with span_index := self.span_index.insert span.span_id idx }

/-- One turn of the patch loop. -/
def patch_child (idx : ℕ) (self : Trace) (child_idx : ℕ) : Option Trace := do
  let parent_idxs ← setAt self.parent_idxs child_idx (some idx)
  let orphans ← setAt self.orphans child_idx false
  return { self with parent_idxs, orphans }

/-- Patch-in-place: the new span may be the parent that children wait for. -/
def patch_children (self : Trace) (span_id : SpanId) (idx : ℕ) : Option Trace :=
  match self.pending_children.lookup span_id with
  | some children =>
    children.foldlM (patch_child idx)
      { self with pending_children := self.pending_children.erase span_id }
  | none => some self

/-- `Trace::insert`: an in-place overwrite when the span id is resident, else a
new row in every column. -/
def insert (self : Trace) (span : NewSpan) (service_name_id : Option UInt32)
    (key_interner : Interner) (now_unix_nano : UInt64) :
    Option (Trace × Interner × InsertOutcome) := do
  let self := { self with last_activity_unix_nano := now_unix_nano }
  let (interned_attrs, key_interner) := intern_attrs key_interner span.attributes
  match self.span_index.lookup span.span_id with
  | some idx =>
    let self ← self.overwrite_at idx span service_name_id interned_attrs
    return (self, key_interner, { local_idx := idx, is_duplicate := true })
  | none =>
    let idx := self.span_ids.length
    let self := self.push_span span service_name_id interned_attrs
    let self ← self.patch_children span.span_id idx
    return (self, key_interner, { local_idx := idx, is_duplicate := false })

/-- A trace without its last activity. No accessor reads it. -/
def forget_activity (self : Trace) : Trace := { self with last_activity_unix_nano := 0 }

/-! ## The spans of the test module -/

/-- `span` of the test module. -/
def span (id : UInt8) (parent : Option UInt8) (name : String) : NewSpan where
  span_id := sid id
  parent_span_id := parent.map sid
  name := name
  start_time_unix_nano := 100
  end_time_unix_nano := 200
  status_message := ""
  status_code := 0
  unknown_service := false
  service_name := none
  attributes := []

/-! ## What the steps do

Every result about `insert` starts from these: which of the two paths was
taken, and what each of them leaves alone. -/

/-- The two paths of `insert`. -/
theorem insert_cases {t t' : Trace} {span : NewSpan} {svc : Option UInt32} {I I' : Interner}
    {now : UInt64} {out : InsertOutcome} (h : t.insert span svc I now = some (t', I', out)) :
    I' = (intern_attrs I span.attributes).2
      ∧ ((∃ idx, t.span_index.lookup span.span_id = some idx
            ∧ out = { local_idx := idx, is_duplicate := true }
            ∧ overwrite_at { t with last_activity_unix_nano := now } idx span svc
                (intern_attrs I span.attributes).1 = some t')
        ∨ (t.span_index.lookup span.span_id = none
            ∧ out = { local_idx := t.span_ids.length, is_duplicate := false }
            ∧ patch_children
                (push_span { t with last_activity_unix_nano := now } span svc
                  (intern_attrs I span.attributes).1)
                span.span_id t.span_ids.length = some t')) := by
  unfold insert at h
  cases hl : t.span_index.lookup span.span_id with
  | some idx =>
    simp only [hl, Option.bind_eq_bind, Option.bind_eq_some_iff, Option.pure_def,
      Option.some.injEq, Prod.mk.injEq] at h
    obtain ⟨t₁, h₁, rfl, rfl, rfl⟩ := h
    exact ⟨rfl, Or.inl ⟨idx, rfl, rfl, h₁⟩⟩
  | none =>
    simp only [hl, Option.bind_eq_bind, Option.bind_eq_some_iff, Option.pure_def,
      Option.some.injEq, Prod.mk.injEq] at h
    obtain ⟨t₁, h₁, rfl, rfl, rfl⟩ := h
    exact ⟨rfl, Or.inr ⟨rfl, rfl, h₁⟩⟩

/-- **What an overwrite writes**, where it does not panic. -/
theorem overwrite_at_cases {t t' : Trace} {idx : ℕ} {span : NewSpan} {svc : Option UInt32}
    {attrs : List (UInt32 × AttrValue)} (h : t.overwrite_at idx span svc attrs = some t') :
    ∃ start stop keys values, idx < t.names.length
      ∧ t.attr_offsets[idx]? = some start ∧ t.attr_offsets[idx + 1]? = some stop
      ∧ splice t.attr_keys start.toNat stop.toNat (attrs.map Prod.fst) = some keys
      ∧ splice t.attr_values start.toNat stop.toNat (attrs.map Prod.snd) = some values
      ∧ t' = { t with
          names := t.names.set idx span.name
          start_times_unix_nano := t.start_times_unix_nano.set idx span.start_time_unix_nano
          end_times_unix_nano := t.end_times_unix_nano.set idx span.end_time_unix_nano
          status_messages := t.status_messages.set idx span.status_message
          status_codes := t.status_codes.set idx span.status_code
          unknown_services := t.unknown_services.set idx span.unknown_service
          service_name_ids := t.service_name_ids.set idx svc
          attr_keys := keys
          attr_values := values
          attr_offsets := t.attr_offsets.take (idx + 1)
            ++ (t.attr_offsets.drop (idx + 1)).map fun off => UInt32.ofInt ((off.toNat : ℤ)
              + ((attrs.length : ℤ) - ((stop.toNat - start.toNat : ℕ) : ℤ))) } := by
  rw [overwrite_at] at h
  -- the writes, one `?` of the source after the other
  obtain ⟨_, hnames, h⟩ := Option.bind_eq_some_iff.mp h
  obtain ⟨_, hstarts, h⟩ := Option.bind_eq_some_iff.mp h
  obtain ⟨_, hends, h⟩ := Option.bind_eq_some_iff.mp h
  obtain ⟨_, hmessages, h⟩ := Option.bind_eq_some_iff.mp h
  obtain ⟨_, hcodes, h⟩ := Option.bind_eq_some_iff.mp h
  obtain ⟨_, hunknown, h⟩ := Option.bind_eq_some_iff.mp h
  obtain ⟨_, hservices, h⟩ := Option.bind_eq_some_iff.mp h
  obtain ⟨start, hstart, h⟩ := Option.bind_eq_some_iff.mp h
  obtain ⟨stop, hstop, h⟩ := Option.bind_eq_some_iff.mp h
  obtain ⟨keys, hkeys, h⟩ := Option.bind_eq_some_iff.mp h
  obtain ⟨values, hvalues, h⟩ := Option.bind_eq_some_iff.mp h
  obtain ⟨hidx, rfl⟩ := setAt_eq_some.mp hnames
  obtain ⟨_, rfl⟩ := setAt_eq_some.mp hstarts
  obtain ⟨_, rfl⟩ := setAt_eq_some.mp hends
  obtain ⟨_, rfl⟩ := setAt_eq_some.mp hmessages
  obtain ⟨_, rfl⟩ := setAt_eq_some.mp hcodes
  obtain ⟨_, rfl⟩ := setAt_eq_some.mp hunknown
  obtain ⟨_, rfl⟩ := setAt_eq_some.mp hservices
  exact ⟨start, stop, keys, values, hidx, hstart, hstop, hkeys, hvalues, (Option.some.inj h).symm⟩

/-- An overwrite rewrites the columns that copy a field, the attributes and
nothing else; in particular not the links. -/
theorem overwrite_at_frame {t t' : Trace} {idx : ℕ} {span : NewSpan} {svc : Option UInt32}
    {attrs : List (UInt32 × AttrValue)} (h : t.overwrite_at idx span svc attrs = some t') :
    t'.trace_id = t.trace_id ∧ t'.generation = t.generation
      ∧ t'.last_activity_unix_nano = t.last_activity_unix_nano
      ∧ t'.span_ids = t.span_ids ∧ t'.parent_idxs = t.parent_idxs ∧ t'.orphans = t.orphans
      ∧ t'.span_index = t.span_index ∧ t'.pending_children = t.pending_children
      ∧ t'.attr_keys.length ≤ t.attr_keys.length + attrs.length := by
  obtain ⟨_, _, keys, _, _, _, _, hkeys, _, rfl⟩ := overwrite_at_cases h
  refine ⟨rfl, rfl, rfl, rfl, rfl, rfl, rfl, rfl, ?_⟩
  have hlen := splice_length_le hkeys
  rwa [List.length_map] at hlen

/-- The `match` on the parent writes links and the queue. -/
theorem push_parent_frame (u : Trace) (idx : ℕ) (p : Option SpanId) :
    ∃ parent_idxs orphans pending_children,
      u.push_parent idx p = { u with parent_idxs, orphans, pending_children } := by
  unfold push_parent
  cases p with
  | none => exact ⟨_, _, _, rfl⟩
  | some pid =>
    dsimp only
    cases hl : u.span_index.lookup pid with
    | none => exact ⟨_, _, _, rfl⟩
    | some pidx => exact ⟨_, _, _, rfl⟩

/-- A patch writes links and drains the queue of one id. -/
theorem patch_children_frame {t t' : Trace} {id : SpanId} {idx : ℕ}
    (h : t.patch_children id idx = some t') :
    ∃ parent_idxs orphans, t' = { t with
      parent_idxs, orphans, pending_children := t.pending_children.erase id } := by
  have loop : ∀ (cs : List ℕ) (t t' : Trace), cs.foldlM (patch_child idx) t = some t' →
      ∃ parent_idxs orphans, t' = { t with parent_idxs, orphans } := by
    intro cs
    induction cs with
    | nil =>
      intro t t' h
      obtain rfl : t = t' := by simpa using h
      exact ⟨t.parent_idxs, t.orphans, rfl⟩
    | cons c cs ih =>
      intro t t' h
      rw [List.foldlM_cons, Option.bind_eq_bind, Option.bind_eq_some_iff] at h
      obtain ⟨t₁, h₁, h₂⟩ := h
      simp only [patch_child, Option.bind_eq_bind, Option.bind_eq_some_iff, Option.pure_def,
        Option.some.injEq] at h₁
      obtain ⟨p, _, o, _, rfl⟩ := h₁
      obtain ⟨p', o', rfl⟩ := ih _ _ h₂
      exact ⟨p', o', rfl⟩
  unfold patch_children at h
  cases hl : t.pending_children.lookup id with
  | some children =>
    rw [hl] at h
    exact loop _ _ _ h
  | none =>
    -- no queue, so erasing it changes nothing either
    rw [hl, Option.some.injEq] at h
    refine ⟨t.parent_idxs, t.orphans, ?_⟩
    rw [← h, Lib.HashMap.erase_of_notMem hl]

theorem intern_attrs_length_le (I : Interner) (attrs : List (String × AttrValue)) :
    (intern_attrs I attrs).1.length ≤ attrs.length := by
  induction attrs generalizing I with
  | nil => exact Nat.le_refl _
  | cons kv rest ih =>
    have := ih (I.intern kv.1).2
    rw [intern_attrs]
    dsimp only
    cases (I.intern kv.1).1 with
    | none => exact Nat.le_succ_of_le this
    | some id => exact Nat.succ_le_succ this

/-- **What every insert does**, on either path: it stamps the trace, never
moves a span and never forgets one. -/
theorem insert_frame {t t' : Trace} {span : NewSpan} {svc : Option UInt32} {I I' : Interner}
    {now : UInt64} {out : InsertOutcome} (h : t.insert span svc I now = some (t', I', out)) :
    t'.trace_id = t.trace_id ∧ t'.generation = t.generation
      ∧ t'.last_activity_unix_nano = now ∧ t.span_ids <+: t'.span_ids
      ∧ t'.attr_keys.length ≤ t.attr_keys.length + span.attributes.length
      ∧ out.is_duplicate = (t.span_index.lookup span.span_id).isSome := by
  have hlen := intern_attrs_length_le I span.attributes
  obtain ⟨_, ⟨idx, hl, rfl, ho⟩ | ⟨hl, rfl, hp⟩⟩ := insert_cases h
  · obtain ⟨hid, hgen, hlast, hids, _, _, _, _, hkeys⟩ := overwrite_at_frame ho
    refine ⟨hid, hgen, hlast, hids ▸ List.prefix_refl _, ?_, by rw [hl]; rfl⟩
    exact hkeys.trans (Nat.add_le_add_left hlen _)
  · -- neither the parent's pushes nor the patch loop touch what is claimed here
    obtain ⟨_, _, rfl⟩ := patch_children_frame hp
    obtain ⟨_, _, _, hframe⟩ := push_parent_frame
      (push_columns { t with last_activity_unix_nano := now } span svc) t.span_ids.length
      span.parent_span_id
    simp only [push_span, hframe]
    refine ⟨rfl, rfl, rfl, List.prefix_append _ _, ?_, by rw [hl]; rfl⟩
    simp only [push_attrs, push_columns, List.length_append, List.length_map]
    exact Nat.add_le_add_left hlen _

end Trace

end Spanfall
