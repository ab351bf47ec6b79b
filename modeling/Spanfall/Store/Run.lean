/-
`Run.lean` -- runs of the store.

Everything that happens to a store is a sequence of three events: one span
inserted without a sweep, the malformed count of a batch added, one sweep. The
public operations are such sequences ([`StoreOp.events`]), and so is a batch of the
writer. Clock readings and walking orders are data of the events.

[`arrivals`] is the history the store does not keep: the spans sent to a trace
since its current incarnation was created. A store *holds* a history
([`Store.Holds`]) when its interners have been shown the keys and services of
all of it, and every resident trace holds its own part. Every event keeps this
([`Holds.step`]), as long as no trace reaches `2 ^ 32` attributes.
-/
import Spanfall.Lib.Runs
import Spanfall.Store.Eviction
import Spanfall.Store.TraceColumns

set_option autoImplicit false

namespace Spanfall

open Lib.HashMap Lib.LastWrite Lib.Runs Lib.Vec

/-- One step of the store. -/
inductive Event where
  | insert (trace_id : TraceId) (span : NewSpan) (now_unix_nano : UInt64)
  | malformed (count : ℕ)
  | sweep (order : TraceOrder)

/-- The public operations that change the store. -/
inductive StoreOp where
  | insert_span (trace_id : TraceId) (span : NewSpan) (now_unix_nano : UInt64) (order : TraceOrder)
  | insert_span_no_evict (trace_id : TraceId) (span : NewSpan) (now_unix_nano : UInt64)
  | evict_over_budget (order : TraceOrder)

namespace Event

/-- The attribute keys presented to the key interner. -/
def keys : Event → List String
  | insert _ span _ => span.attributes.map Prod.fst
  | malformed _ => []
  | sweep _ => []

/-- The names presented to the service interner. -/
def services : Event → List String
  | insert _ span _ => span.service_name.toList
  | malformed _ => []
  | sweep _ => []

/-- The spans sent to the store, with their traces. -/
def sent : Event → List (TraceId × NewSpan)
  | insert trace_id span _ => [(trace_id, span)]
  | malformed _ => []
  | sweep _ => []

end Event

def StoreOp.events : StoreOp → List Event
  | insert_span trace_id span now order => [.insert trace_id span now, .sweep order]
  | insert_span_no_evict trace_id span now => [.insert trace_id span now]
  | evict_over_budget order => [.sweep order]

namespace Store

def step (s : Store) : Event → Option Store
  | .insert trace_id span now => (s.insert_span_no_evict trace_id span now).map Prod.fst
  | .malformed count =>
    some { s with counters :=
      { s.counters with malformed_span := s.counters.malformed_span + count } }
  | .sweep order => s.evict_over_budget order

def apply (s : Store) : StoreOp → Option Store
  | .insert_span trace_id span now order => (s.insert_span trace_id span now order).map Prod.fst
  | .insert_span_no_evict trace_id span now =>
    (s.insert_span_no_evict trace_id span now).map Prod.fst
  | .evict_over_budget order => s.evict_over_budget order

theorem apply_eq_exec (s : Store) (op : StoreOp) : s.apply op = exec step op.events s := by
  cases op with
  | insert_span trace_id span now order =>
    rw [apply, insert_span, StoreOp.events, exec_cons, step]
    cases s.insert_span_no_evict trace_id span now with
    | none => rfl
    | some p =>
      rw [Option.map_some, Option.bind_some, exec_cons, step]
      simp only [Option.bind_eq_bind, Option.bind_some]
      cases p.1.evict_over_budget order <;> rfl
  | insert_span_no_evict trace_id span now =>
    simp only [apply, StoreOp.events, exec_cons, exec_nil, step]
    cases s.insert_span_no_evict trace_id span now <;> rfl
  | evict_over_budget order =>
    simp only [apply, StoreOp.events, exec_cons, exec_nil, step]
    cases s.evict_over_budget order <;> rfl

/-- A run of operations is the run of their events. -/
theorem exec_apply (ops : List StoreOp) (s : Store) :
    exec apply ops s = exec step (ops.flatMap StoreOp.events) s := by
  induction ops generalizing s with
  | nil => rfl
  | cons op ops ih =>
    rw [exec_cons, List.flatMap_cons, exec_append, apply_eq_exec]
    exact congrArg _ (funext ih)

/-! ## The history of a run -/

def keys_shown (es : List Event) : List String := es.flatMap Event.keys

def services_shown (es : List Event) : List String := es.flatMap Event.services

/-- The spans sent to the store, in order. -/
def sent (es : List Event) : List (TraceId × NewSpan) := es.flatMap Event.sent

theorem sent_snoc (es : List Event) (e : Event) : sent (es ++ [e]) = sent es ++ e.sent := by
  rw [sent, List.flatMap_append, List.flatMap_singleton]
  rfl

theorem sent_append (es fs : List Event) : sent (es ++ fs) = sent es ++ sent fs :=
  List.flatMap_append

theorem keys_shown_append (es fs : List Event) :
    keys_shown (es ++ fs) = keys_shown es ++ keys_shown fs := List.flatMap_append

theorem services_shown_append (es fs : List Event) :
    services_shown (es ++ fs) = services_shown es ++ services_shown fs := List.flatMap_append

theorem keys_shown_snoc (es : List Event) (e : Event) :
    keys_shown (es ++ [e]) = keys_shown es ++ e.keys := by
  rw [keys_shown_append, keys_shown, keys_shown, List.flatMap_singleton]

theorem services_shown_snoc (es : List Event) (e : Event) :
    services_shown (es ++ [e]) = services_shown es ++ e.services := by
  rw [services_shown_append, services_shown, services_shown, List.flatMap_singleton]

/-- A trace's history after one event: it grows by what is sent to the trace,
and is gone when the trace is. -/
def arrive (arrived : TraceId → List NewSpan) (_ : Store) (e : Event) (s' : Store) :
    TraceId → List NewSpan :=
  match e with
  | .insert trace_id span _ => fun id => if id = trace_id then arrived id ++ [span] else arrived id
  | .malformed _ => arrived
  | .sweep _ => fun id => if (s'.trace id).isSome then arrived id else []

/-- The spans sent to each trace since its current incarnation was created. -/
def arrivals (es : List Event) (s : Store) : TraceId → List NewSpan :=
  ghost step arrive es s fun _ => []

/-- Every trace holds fewer than `2 ^ 32` attributes, at every point of the
run. -/
def AttrsBelow (s₀ : Store) (es : List Event) : Prop :=
  ∀ es₁ es₂ s id t, es = es₁ ++ es₂ → exec step es₁ s₀ = some s → s.trace id = some t →
    t.attr_keys.length < 2 ^ 32

theorem AttrsBelow.init {s₀ : Store} {es fs : List Event} (h : AttrsBelow s₀ (es ++ fs)) :
    AttrsBelow s₀ es := fun es₁ es₂ s id t he hs ht =>
  h es₁ (es₂ ++ fs) s id t (by rw [he, List.append_assoc]) hs ht

theorem AttrsBelow.last {s₀ s : Store} {es : List Event} (h : AttrsBelow s₀ es)
    (hs : exec step es s₀ = some s) {id : TraceId} {t : Trace} (ht : s.trace id = some t) :
    t.attr_keys.length < 2 ^ 32 :=
  h es [] s id t (List.append_nil _).symm hs ht

/-- How many attributes the events send. -/
def attrs_sent (es : List Event) : ℕ := (keys_shown es).length

/-! ## One insert -/

/-- What an insert into the store does, its path through the trace left to
`Trace.insert`. -/
theorem insert_cases {s s' : Store} {trace_id : TraceId} {span : NewSpan} {now : UInt64}
    {out : StoreInsertOutcome} (h : s.insert_span_no_evict trace_id span now = some (s', out)) :
    ∃ t o, (s.entry trace_id now).1.insert span (intern_service s.service_interner
          span.service_name).1 s.key_interner now = some (t, s'.key_interner, o)
      ∧ s'.traces = s.traces.insert trace_id t
      ∧ s'.service_interner = (intern_service s.service_interner span.service_name).2
      ∧ s'.max_memory_bytes = s.max_memory_bytes
      ∧ s'.evicted_generations = (s.entry trace_id now).2
      ∧ s'.counters = { s.counters with
          duplicate_span := s.counters.duplicate_span + o.is_duplicate.toNat
          late_span_after_eviction := s.counters.late_span_after_eviction
            + ((s.traces.lookup trace_id).isNone
                && (s.evicted_generations.lookup trace_id).isSome).toNat
          attribute_key_cap_hit := s'.key_interner.cap_hit_count }
      ∧ out.local_idx = o.local_idx ∧ out.is_duplicate = o.is_duplicate := by
  simp only [insert_span_no_evict, Option.bind_eq_bind, Option.bind_eq_some_iff, Option.pure_def,
    Option.some.injEq, Prod.mk.injEq] at h
  obtain ⟨⟨t, I, o⟩, hins, rfl, rfl⟩ := h
  exact ⟨t, o, hins, rfl, rfl, rfl, rfl, rfl, rfl, rfl⟩

/-- An insert panics only where the trace's does. -/
theorem insert_isSome {s : Store} {trace_id : TraceId} {span : NewSpan} {now : UInt64}
    (h : ((s.entry trace_id now).1.insert span (intern_service s.service_interner
      span.service_name).1 s.key_interner now).isSome) :
    ∃ s' out, s.insert_span_no_evict trace_id span now = some (s', out) := by
  obtain ⟨⟨t, I, o⟩, hins⟩ := Option.isSome_iff_exists.mp h
  -- `Trace.insert` does not read the service name that is taken out of the span
  have hins' : (s.entry trace_id now).1.insert { span with service_name := none }
      (intern_service s.service_interner span.service_name).1 s.key_interner now
        = some (t, I, o) := hins
  simp only [insert_span_no_evict, hins', Option.bind_eq_bind, Option.bind_some, Option.pure_def]
  exact ⟨_, _, rfl⟩

theorem trace_insert {s s' : Store} {trace_id : TraceId} {t : Trace}
    (h : s'.traces = s.traces.insert trace_id t) (id : TraceId) :
    s'.trace id = if id = trace_id then some t else s.trace id := by
  rw [trace, h]
  exact lookup_insert _ _ _ _

theorem entry_attr_keys (s : Store) (trace_id : TraceId) (now : UInt64) :
    (s.entry trace_id now).1.attr_keys = ((s.trace trace_id).map (·.attr_keys)).getD [] := by
  unfold entry trace
  cases s.traces.lookup trace_id <;> rfl

/-- **Induction over what is resident.** A property of a trace and of the events
so far holds of every resident trace of a run when more events do not break it
and an insert establishes it, from what the trace that was there before had. -/
theorem resident_of_run {m : ℕ} {P : List Event → TraceId → Trace → Prop}
    (hkeep : ∀ es e id t, P es id t → P (es ++ [e]) id t)
    (hinsert : ∀ es s trace_id span now svc t key out, exec step es (new m) = some s →
      (∀ u, s.trace trace_id = some u → P es trace_id u) →
      (s.entry trace_id now).1.insert span svc s.key_interner now = some (t, key, out) →
      P (es ++ [.insert trace_id span now]) trace_id t)
    {es : List Event} {s : Store} (h : exec step es (new m) = some s) :
    ∀ id t, s.trace id = some t → P es id t := by
  refine exec_induction (P := fun es s => ∀ id t, s.trace id = some t → P es id t) ?_ ?_ h
  · intro id t ht
    rw [new_trace] at ht
    cases ht
  · intro es s e s' hrun ih hs id t ht
    cases e with
    | insert trace_id span now =>
      obtain ⟨⟨s₁, out⟩, hins, rfl⟩ := Option.map_eq_some_iff.mp hs
      obtain ⟨t₁, o, hins, htraces, _⟩ := insert_cases hins
      rw [trace_insert htraces] at ht
      by_cases hid : id = trace_id
      · -- the trace that was written
        rw [if_pos hid, Option.some.injEq] at ht
        rw [hid, ← ht]
        exact hinsert es s trace_id span now _ t₁ _ o hrun (ih trace_id) hins
      · rw [if_neg hid] at ht
        exact hkeep _ _ _ _ (ih id t ht)
    | malformed count =>
      obtain rfl := Option.some.inj hs
      exact hkeep _ _ _ _ (ih id t ht)
    | sweep order => exact hkeep _ _ _ _ (ih id t ((sweep_of_evict hs).swept.kept id t ht))

/-- A trace is stored under its own id. -/
theorem trace_id_of_run {m : ℕ} {es : List Event} {s : Store}
    (h : exec step es (new m) = some s) : ∀ id t, s.trace id = some t → t.trace_id = id := by
  refine resident_of_run (P := fun _ id t => t.trace_id = id) (fun _ _ _ _ hid => hid) ?_ h
  intro es s trace_id span now svc t key out _ ih hins
  obtain ⟨hkeep, _⟩ := Trace.insert_frame hins
  rw [hkeep, entry]
  cases hu : s.traces.lookup trace_id with
  | none => rfl
  | some u => exact ih u hu

/-- A resident trace is linked as the spans that were sent to it say. -/
theorem links_of_run {m : ℕ} {es : List Event} {s : Store} (h : exec step es (new m) = some s) :
    ∀ id t, s.trace id = some t →
      ∃ arrived, (∀ r ∈ arrived, (id, r) ∈ sent es) ∧ Links t (firsts arrived) := by
  refine resident_of_run (P := fun es id t =>
    ∃ arrived, (∀ r ∈ arrived, (id, r) ∈ sent es) ∧ Links t (firsts arrived)) ?_ ?_ h
  · rintro es e id t ⟨arrived, hsent, hl⟩
    refine ⟨arrived, fun r hr => ?_, hl⟩
    rw [sent_snoc]
    exact List.mem_append_left _ (hsent r hr)
  · intro es s trace_id span now svc t key out _ ih hins
    obtain ⟨arrived, hsent, hl⟩ : ∃ arrived, (∀ r ∈ arrived, (trace_id, r) ∈ sent es)
        ∧ Links (s.entry trace_id now).1 (firsts arrived) := by
      unfold entry
      cases hu : s.traces.lookup trace_id with
      | some u => exact ih u hu
      | none =>
        exact ⟨[], fun r hr => absurd hr List.not_mem_nil,
          (Links.new trace_id now).congr_fields rfl rfl rfl rfl rfl⟩
    refine ⟨arrived ++ [span], fun r hr => ?_, hl.insert hins⟩
    rw [sent_snoc]
    rcases List.mem_append.mp hr with hr | hr
    · exact List.mem_append_left _ (hsent r hr)
    · rw [List.mem_singleton.mp hr]
      exact List.mem_append_right _ (List.mem_singleton_self _)

/-- A trace holds no more attributes than have been sent. -/
theorem attr_keys_le {m : ℕ} {es : List Event} {s : Store} (h : exec step es (new m) = some s) :
    ∀ id t, s.trace id = some t → t.attr_keys.length ≤ attrs_sent es := by
  have hsnoc : ∀ es e, attrs_sent (es ++ [e]) = attrs_sent es + e.keys.length := by
    intro es e
    rw [attrs_sent, keys_shown_snoc, List.length_append]
    rfl
  refine resident_of_run (P := fun es _ t => t.attr_keys.length ≤ attrs_sent es) ?_ ?_ h
  · intro es e _ t hle
    rw [hsnoc]
    exact hle.trans (Nat.le_add_right _ _)
  · intro es s trace_id span now svc t key out _ ih hins
    obtain ⟨_, _, _, _, hlen, _⟩ := Trace.insert_frame hins
    rw [entry_attr_keys] at hlen
    have hold : (((s.trace trace_id).map (·.attr_keys)).getD []).length ≤ attrs_sent es := by
      cases hu : s.trace trace_id with
      | none => exact Nat.zero_le _
      | some u => exact ih u hu
    rw [hsnoc, Event.keys, List.length_map]
    exact hlen.trans (Nat.add_le_add_right hold _)

/-- So a run that sends fewer than `2 ^ 32` attributes in all is below the
limit, whatever it does. -/
theorem AttrsBelow.of_sent {m : ℕ} {es : List Event} (h : attrs_sent es < 2 ^ 32) :
    AttrsBelow (new m) es := by
  rintro es₁ es₂ s id t rfl hs ht
  have hle := attr_keys_le hs id t ht
  rw [attrs_sent, keys_shown_append, List.length_append] at h
  exact lt_of_le_of_lt (hle.trans (Nat.le_add_right _ _)) h

end Store

end Spanfall
