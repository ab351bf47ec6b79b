/-
`Refine.lean` -- the store refines its history.

[`Store.Holds`] is the invariant: the interners have been shown the keys and
the services of the history, and every resident trace holds its part of it.
`new` has it, each event keeps it, and so every run ends and has it
([`run_holds`]). What the accessors return is then read off the history
([`run_refines`]).
-/
import Spanfall.Store.Run

set_option autoImplicit false

namespace Spanfall

open Lib.Csr Lib.HashMap Lib.LastWrite Lib.Runs Lib.Vec

/-! ## The estimate

Under [`Columns`] the estimate is a sum over the rows. -/

/-- What one row is charged. -/
def row_charge (key : Interner) (r : NewSpan) : ℕ :=
  APPROX_SPAN_FIXED_BYTES + r.name.utf8ByteSize
    + (kept_attrs key r.attributes).length * APPROX_ATTR_FIXED_BYTES

theorem Columns.approx_bytes {t : Trace} {key svc : Interner} {R : List NewSpan}
    (h : Columns t key svc R) (hsmall : t.attr_keys.length < 2 ^ 32) :
    Store.approx_bytes t = some (R.map (row_charge key)).sum := by
  have hcount : R.length = t.span_count := by
    rw [Trace.span_count, h.span_ids, List.length_map]
  -- no index is out of range, so the walk is the sum over the rows
  have hwalk : (List.range t.span_count).mapM (fun i => do
      let name ← t.name i
      let attributes ← t.attributes i
      return APPROX_SPAN_FIXED_BYTES + name.utf8ByteSize
        + attributes.length * APPROX_ATTR_FIXED_BYTES) = some (R.map (row_charge key)) := by
    refine mapM_range_of_getElem? hcount fun i r hr => ?_
    have hname : t.name i = some r.name := by
      rw [Trace.name, h.names, List.getElem?_map, hr]
      rfl
    rw [hname, (h.attributes (h.offset_lt hsmall (i + 1)) hr).1]
    simp [row_charge]
  rw [Store.approx_bytes, hwalk]
  rfl

/-! ## The invariant -/

/-- The interners have been shown what the spans of `arrived` carry. -/
def Shown (ks ss : List String) (arrived : List NewSpan) : Prop :=
  ∀ r ∈ arrived, (∀ kv ∈ r.attributes, kv.1 ∈ ks) ∧ ∀ n, r.service_name = some n → n ∈ ss

namespace Store

/-- The store holds a history: `ks` and `ss` have been shown to its interners,
`arrived` has been sent to its resident traces. -/
structure Holds (s : Store) (ks ss : List String) (arrived : TraceId → List NewSpan) : Prop where
  key : s.key_interner.Holds ks
  key_cap : s.key_interner.cap = GLOBAL_INTERNER_CAP
  service : s.service_interner.Holds ss
  service_cap : s.service_interner.cap = GLOBAL_INTERNER_CAP
  shown : ∀ id, Shown ks ss (arrived id)
  resident : ∀ id t, s.trace id = some t →
    t.Holds s.key_interner s.service_interner (arrived id)
  absent : ∀ id, s.trace id = none → arrived id = []
  /-- A trace is resident by its first span. -/
  present : ∀ id t, s.trace id = some t → arrived id ≠ []

theorem new_holds (m : ℕ) : (new m).Holds [] [] fun _ => [] where
  key := Interner.new_holds (by decide)
  key_cap := rfl
  service := Interner.new_holds (by decide)
  service_cap := rfl
  shown _ r hr := absurd hr List.not_mem_nil
  resident id t ht := by
    rw [new_trace] at ht
    cases ht
  absent _ _ := rfl
  present id t ht := by
    rw [new_trace] at ht
    cases ht

/-- The resident traces are those with arrivals. -/
theorem Holds.isSome_iff {s : Store} {ks ss : List String} {arrived : TraceId → List NewSpan}
    (h : s.Holds ks ss arrived) (id : TraceId) : (s.trace id).isSome ↔ arrived id ≠ [] := by
  constructor
  · intro hsome
    obtain ⟨t, ht⟩ := Option.isSome_iff_exists.mp hsome
    exact h.present id t ht
  · intro harrived
    rw [← Option.ne_none_iff_isSome]
    exact fun hnone => harrived (h.absent id hnone)

theorem intern_service_spec {I : Interner} {ss : List String} (h : I.Holds ss)
    (n : Option String) :
    (intern_service I n).2.Holds (ss ++ n.toList)
      ∧ (intern_service I n).2.cap = I.cap
      ∧ (intern_service I n).1 = n.bind (intern_service I n).2.lookup := by
  cases n with
  | none => exact ⟨by rwa [Option.toList_none, List.append_nil], rfl, rfl⟩
  | some name => exact Interner.intern_holds h name

variable {s s' : Store} {ks ss : List String} {arrived : TraceId → List NewSpan}

/-- Interners that have been shown more still describe every trace. -/
theorem Holds.resident_congr (h : s.Holds ks ss arrived) {key' svc' : Interner}
    {kn sn : List String} (hkey : key'.Holds (ks ++ kn)) (hkcap : key'.cap = s.key_interner.cap)
    (hsvc : svc'.Holds (ss ++ sn)) (hscap : svc'.cap = s.service_interner.cap) {id : TraceId}
    {t : Trace} (ht : t.Holds s.key_interner s.service_interner (arrived id)) :
    t.Holds key' svc' (arrived id) :=
  ht.congr_interners
    (fun r hr kv hkv => h.key.lookup_stable hkey hkcap ((h.shown id r hr).1 kv hkv))
    fun r hr n hn => h.service.lookup_stable hsvc hscap ((h.shown id r hr).2 n hn)

theorem entry_holds (h : s.Holds ks ss arrived) (trace_id : TraceId) (now : UInt64) :
    (s.entry trace_id now).1.Holds s.key_interner s.service_interner (arrived trace_id) := by
  unfold entry
  cases ht : s.traces.lookup trace_id with
  | some t => exact h.resident trace_id t ht
  | none =>
    -- a new incarnation: no arrivals yet, and the generation is no column
    rw [h.absent trace_id ht]
    obtain ⟨hcols, hlinks⟩ :=
      Trace.new_holds trace_id now s.key_interner s.service_interner
    exact ⟨{ hcols with }, hlinks.congr_fields rfl rfl rfl rfl rfl⟩

/-- The trace that an insert writes, under the service interner as it is by then. -/
theorem Holds.entry (h : s.Holds ks ss arrived) (trace_id : TraceId) (now : UInt64)
    (n : Option String) :
    (s.entry trace_id now).1.Holds s.key_interner (intern_service s.service_interner n).2
      (arrived trace_id) := by
  obtain ⟨hsvc, hscap, _⟩ := intern_service_spec h.service n
  have hkey : s.key_interner.Holds (ks ++ []) := by
    rw [List.append_nil]
    exact h.key
  exact h.resident_congr hkey rfl hsvc hscap (entry_holds h trace_id now)

/-- The store's insert does what the trace's does: `more` is what the trace has
then been sent besides. -/
theorem Holds.insert_of_trace (h : s.Holds ks ss arrived) {trace_id : TraceId} {span : NewSpan}
    {now : UInt64} {more : List NewSpan}
    (hmore : Shown (ks ++ span.attributes.map Prod.fst) (ss ++ span.service_name.toList) more)
    (hne : more ≠ [])
    (hins : ∃ t' o, (s.entry trace_id now).1.insert span (intern_service s.service_interner
          span.service_name).1 s.key_interner now
        = some (t', (Trace.intern_attrs s.key_interner span.attributes).2, o)
      ∧ t'.Holds (Trace.intern_attrs s.key_interner span.attributes).2
          (intern_service s.service_interner span.service_name).2 (arrived trace_id ++ more)) :
    ∃ s' out, s.insert_span_no_evict trace_id span now = some (s', out)
      ∧ s'.Holds (ks ++ span.attributes.map Prod.fst) (ss ++ span.service_name.toList)
          fun id => if id = trace_id then arrived id ++ more else arrived id := by
  obtain ⟨hsvc, hscap, _⟩ := intern_service_spec h.service span.service_name
  obtain ⟨hkey, hkcap, _⟩ := intern_attrs_spec h.key span.attributes
  obtain ⟨t', o, hins, ht'⟩ := hins
  -- the store's call goes through where the trace's does, to the same trace
  obtain ⟨s', out, hcall⟩ := insert_isSome (Option.isSome_of_eq_some hins)
  obtain ⟨t'', o', hins', htraces, hsvc', _, _, _, _⟩ := insert_cases hcall
  rw [hins] at hins'
  obtain ⟨rfl, hkey', _⟩ : t' = t'' ∧ _ = s'.key_interner ∧ o = o' := by
    simpa only [Option.some.injEq, Prod.mk.injEq] using hins'
  rw [hkey'] at hkey hkcap ht'
  rw [← hsvc'] at hsvc hscap ht'
  refine ⟨s', out, hcall, ?_⟩
  refine { key := hkey, key_cap := hkcap.trans h.key_cap, service := hsvc,
           service_cap := hscap.trans h.service_cap, shown := fun id r hr => ?_,
           resident := fun id t ht => ?_, absent := fun id hn => ?_,
           present := fun id t ht => ?_ }
  · have hold : r ∈ arrived id → (∀ kv ∈ r.attributes, kv.1 ∈ ks ++ span.attributes.map Prod.fst)
        ∧ ∀ n, r.service_name = some n → n ∈ ss ++ span.service_name.toList := fun hr =>
      ⟨fun kv hkv => List.mem_append_left _ ((h.shown id r hr).1 kv hkv),
        fun n hn => List.mem_append_left _ ((h.shown id r hr).2 n hn)⟩
    by_cases hid : id = trace_id
    · rw [if_pos hid, List.mem_append] at hr
      obtain hr | hr := hr
      · exact hold hr
      · exact hmore r hr
    · rw [if_neg hid] at hr
      exact hold hr
  · -- the trace that was written has more arrivals, the others have what they had
    rw [trace_insert htraces] at ht
    by_cases hid : id = trace_id
    · rw [if_pos hid, Option.some.injEq] at ht
      rw [if_pos hid, hid, ← ht]
      exact ht'
    · rw [if_neg hid] at ht
      rw [if_neg hid]
      exact h.resident_congr hkey hkcap hsvc hscap (h.resident id t ht)
  · rw [trace_insert htraces] at hn
    by_cases hid : id = trace_id
    · rw [if_pos hid] at hn
      cases hn
    · rw [if_neg hid] at hn
      rw [if_neg hid, h.absent id hn]
  · rw [trace_insert htraces] at ht
    by_cases hid : id = trace_id
    · rw [if_pos hid]
      exact List.append_ne_nil_of_right_ne_nil _ hne
    · rw [if_neg hid] at ht
      rw [if_neg hid]
      exact h.present id t ht

/-- What an insert shows the interners. -/
theorem shown_insert (ks ss : List String) (span : NewSpan) :
    Shown (ks ++ span.attributes.map Prod.fst) (ss ++ span.service_name.toList) [span] := by
  intro r hr
  rw [List.mem_singleton.mp hr]
  exact ⟨fun kv hkv => List.mem_append_right _ (List.mem_map_of_mem hkv),
    fun n hn => List.mem_append_right _ (by rw [hn]; exact List.mem_singleton_self n)⟩

/-- **An insert** ends and is one more arrival in one trace, if the row that it
overwrites has not wrapped. -/
theorem Holds.insert (h : s.Holds ks ss arrived) (trace_id : TraceId) (span : NewSpan)
    (now : UInt64)
    (hend : Unwrapped s.key_interner (lastWrites NewSpan.span_id (arrived trace_id)) span.span_id) :
    ∃ s' out, s.insert_span_no_evict trace_id span now = some (s', out)
      ∧ s'.Holds (ks ++ span.attributes.map Prod.fst) (ss ++ span.service_name.toList)
          fun id => if id = trace_id then arrived id ++ [span] else arrived id := by
  obtain ⟨_, _, hid⟩ := intern_service_spec h.service span.service_name
  obtain ⟨t', o, hins, ht'⟩ := (h.entry trace_id now span.service_name).insert h.key
    (fun r hr kv hkv => (h.shown trace_id r hr).1 kv hkv) span now hend
  rw [← hid] at hins
  exact h.insert_of_trace (shown_insert ks ss span) (List.cons_ne_nil _ _) ⟨t', o, hins, ht'⟩

/-- **A sweep** ends and forgets the history of the traces it takes. -/
theorem Holds.sweep (h : s.Holds ks ss arrived)
    (hsmall : ∀ id t, s.trace id = some t → t.attr_keys.length < 2 ^ 32) (order : TraceOrder) :
    ∃ s', s.evict_over_budget order = some s'
      ∧ s'.Holds ks ss fun id => if (s'.trace id).isSome then arrived id else [] := by
  have hall : ∀ id t, s.trace id = some t → (approx_bytes t).isSome := fun id t ht => by
    rw [(h.resident id t ht).columns.approx_bytes (hsmall id t ht)]
    rfl
  obtain ⟨s', hs'⟩ : ∃ s', s.evict_over_budget order = some s' := evict_loop_isSome hall
  have hswept := (sweep_of_evict hs').swept
  refine ⟨s', hs', ?_⟩
  -- interners untouched; a trace that is left is the one it was, with its history
  refine { key := hswept.key_interner ▸ h.key, key_cap := hswept.key_interner ▸ h.key_cap,
           service := hswept.service_interner ▸ h.service,
           service_cap := hswept.service_interner ▸ h.service_cap, shown := fun id r hr => ?_,
           resident := fun id t ht => ?_, absent := fun id hn => ?_,
           present := fun id t ht => ?_ }
  · by_cases hin : (s'.trace id).isSome
    · rw [if_pos hin] at hr
      exact h.shown id r hr
    · rw [if_neg hin] at hr
      exact absurd hr List.not_mem_nil
  · rw [if_pos (by rw [ht]; rfl), hswept.key_interner, hswept.service_interner]
    exact h.resident id t (hswept.kept id t ht)
  · rw [if_neg (by rw [hn]; exact Bool.false_ne_true)]
  · rw [if_pos (by rw [ht]; rfl)]
    exact h.present id t (hswept.kept id t ht)

/-- **The step lemma.** -/
theorem Holds.step (h : s.Holds ks ss arrived)
    (hsmall : ∀ id t, s.trace id = some t → t.attr_keys.length < 2 ^ 32) (e : Event) :
    ∃ s', s.step e = some s'
      ∧ s'.Holds (ks ++ e.keys) (ss ++ e.services) (arrive arrived s e s') := by
  cases e with
  | insert trace_id span now =>
    have hend : Unwrapped s.key_interner (lastWrites NewSpan.span_id (arrived trace_id))
        span.span_id := by
      cases ht : s.trace trace_id with
      | none =>
        rw [h.absent trace_id ht]
        exact Unwrapped.nil _ _
      | some t => exact (h.resident trace_id t ht).columns.unwrapped (hsmall trace_id t ht) _
    obtain ⟨s', out, hs', hh⟩ := h.insert trace_id span now hend
    exact ⟨s', by rw [Store.step, hs']; rfl, hh⟩
  | malformed count =>
    refine ⟨_, rfl, ?_⟩
    rw [Event.keys, Event.services, List.append_nil, List.append_nil]
    exact ⟨h.key, h.key_cap, h.service, h.service_cap, h.shown, h.resident, h.absent, h.present⟩
  | sweep order =>
    obtain ⟨s', hs', hh⟩ := h.sweep hsmall order
    refine ⟨s', hs', ?_⟩
    rw [Event.keys, Event.services, List.append_nil, List.append_nil]
    exact hh

/-- **The run lemma**: a run below the attribute limit ends, and its store
holds its history. -/
theorem run_holds (m : ℕ) (es : List Event) (hsmall : AttrsBelow (new m) es) :
    ∃ s, exec step es (new m) = some s
      ∧ s.Holds (keys_shown es) (services_shown es) (arrivals es (new m)) := by
  induction es using List.reverseRecOn with
  | nil => exact ⟨new m, rfl, new_holds m⟩
  | append_singleton es e ih =>
    obtain ⟨s, hs, hh⟩ := ih hsmall.init
    obtain ⟨s', hs', hh'⟩ := hh.step (fun id t ht => hsmall.init.last hs ht) e
    refine ⟨s', exec_tail hs hs', ?_⟩
    rw [keys_shown_snoc, services_shown_snoc, arrivals, ghost_snoc hs hs']
    exact hh'

/-- The same for a run that is given. -/
theorem holds_of_run {m : ℕ} {es : List Event} {s : Store} (hs : exec step es (new m) = some s)
    (hsmall : AttrsBelow (new m) es) :
    s.Holds (keys_shown es) (services_shown es) (arrivals es (new m)) := by
  obtain ⟨s', hs', hh⟩ := run_holds m es hsmall
  obtain rfl : s = s' := Option.some.inj (hs.symm.trans hs')
  exact hh

/-! ## What the accessors return -/

/-- The pairs of `attrs` whose key is in `keys`. -/
def restrict_attrs (keys : List String) (attrs : List (String × AttrValue)) :
    List (String × AttrValue) :=
  attrs.filter fun kv => decide (kv.1 ∈ keys)

/-- Span `i` of `t` shows the fields of `last`: attributes and service as far
as their key and name are among `keys` and `services`. -/
structure Shows (s : Store) (t : Trace) (i : ℕ) (keys services : List String) (last : NewSpan) :
    Prop where
  name : t.name i = some last.name
  start_time : t.start_time_unix_nano i = some last.start_time_unix_nano
  end_time : t.end_time_unix_nano i = some last.end_time_unix_nano
  status_code : t.status_code i = some last.status_code
  status_message : t.status_message i = some last.status_message
  unknown_service : t.unknown_service i = some last.unknown_service
  service : (t.service_name_id i).bind (·.mapM s.service_name)
    = some (last.service_name.filter fun n => decide (n ∈ services))
  attribute_keys : (t.attribute_keys i).bind (·.mapM s.attribute_key)
    = some ((restrict_attrs keys last.attributes).map Prod.fst)
  attributes : t.attributes i = some ((restrict_attrs keys last.attributes).map Prod.snd)

/-- What the interner keeps, with the ids resolved again. -/
theorem kept_attrs_resolved {I : Interner} (h : I.Holds ks) (attrs : List (String × AttrValue)) :
    ((kept_attrs I attrs).map Prod.fst).mapM I.get
        = some ((restrict_attrs (accepted I.cap ks) attrs).map Prod.fst)
      ∧ (kept_attrs I attrs).map Prod.snd
        = (restrict_attrs (accepted I.cap ks) attrs).map Prod.snd := by
  induction attrs with
  | nil => exact ⟨rfl, rfl⟩
  | cons kv attrs ih =>
    obtain ⟨ihk, ihv⟩ := ih
    have hmem := h.lookup_isSome kv.1
    unfold kept_attrs restrict_attrs at ihk ihv ⊢
    rw [List.filterMap_cons, List.filter_cons]
    cases hl : I.lookup kv.1 with
    | none =>
      -- refused: the pair is in neither list
      rw [hl] at hmem
      rw [if_neg (by simpa using hmem)]
      exact ⟨ihk, ihv⟩
    | some id =>
      rw [hl] at hmem
      rw [if_pos (by simpa using hmem)]
      simp only [Option.map_some, List.map_cons, List.mapM_cons, h.get_of_lookup hl, ihk, ihv]
      exact ⟨rfl, trivial⟩

theorem service_resolved {I : Interner} (h : I.Holds ss) (n : Option String) :
    (n.bind I.lookup).mapM I.get = some (n.filter fun n => decide (n ∈ accepted I.cap ss)) := by
  cases n with
  | none => rfl
  | some n =>
    have hmem := h.lookup_isSome n
    rw [Option.bind_some]
    cases hl : I.lookup n with
    | none =>
      rw [hl] at hmem
      rw [Option.filter_some, if_neg (by simpa using hmem)]
      rfl
    | some id =>
      rw [hl] at hmem
      rw [Option.filter_some, if_pos (by simpa using hmem), Option.mapM_some, h.get_of_lookup hl]
      rfl

/-- A row of a resident trace, read through the accessors, if it ends before the
offsets wrap. -/
theorem Holds.shows_of_end (h : s.Holds ks ss arrived) {id : TraceId} {t : Trace}
    (ht : s.trace id = some t) {i : ℕ} {last : NewSpan}
    (hi : (lastWrites NewSpan.span_id (arrived id))[i]? = some last)
    (hend : offset (attr_rows s.key_interner (lastWrites NewSpan.span_id (arrived id))) (i + 1)
      < 2 ^ 32) :
    Shows s t i (accepted GLOBAL_INTERNER_CAP ks) (accepted GLOBAL_INTERNER_CAP ss) last := by
  have hc := (h.resident id t ht).columns
  obtain ⟨hvals, hkeys⟩ := hc.attributes hend hi
  obtain ⟨hnames, hrest⟩ := kept_attrs_resolved h.key last.attributes
  have hsvc := service_resolved h.service last.service_name
  rw [h.key_cap] at hnames hrest
  rw [h.service_cap] at hsvc
  -- one column that copies a field
  have column : ∀ {γ : Type} {v : List γ} {f : NewSpan → γ},
      v = (lastWrites NewSpan.span_id (arrived id)).map f → v[i]? = some (f last) := fun hv => by
    rw [hv, List.getElem?_map, hi]
    rfl
  refine { name := column hc.names, start_time := column hc.start_times,
           end_time := column hc.end_times, status_code := column hc.status_codes,
           status_message := column hc.status_messages,
           unknown_service := column hc.unknown_services,
           service := ?_, attribute_keys := ?_, attributes := ?_ }
  · rw [Trace.service_name_id, column hc.service_name_ids, Option.bind_some]
    exact hsvc
  · rw [hkeys, Option.bind_some]
    exact hnames
  · rw [hvals, hrest]

/-- The same for any row of a trace below the limit. -/
theorem Holds.shows (h : s.Holds ks ss arrived) {id : TraceId} {t : Trace}
    (ht : s.trace id = some t) (hsmall : t.attr_keys.length < 2 ^ 32) {i : ℕ} {last : NewSpan}
    (hi : (lastWrites NewSpan.span_id (arrived id))[i]? = some last) :
    Shows s t i (accepted GLOBAL_INTERNER_CAP ks) (accepted GLOBAL_INTERNER_CAP ss) last :=
  h.shows_of_end ht hi ((h.resident id t ht).columns.offset_lt hsmall (i + 1))

/-- **The store refines a naive map of spans.** A run ends, a trace is then resident
if its current incarnation has been sent a span, and it lists the ids sent to this
incarnation in order of first arrival and shows under every one of them the last span
sent with it. -/
theorem run_refines (m : ℕ) (ops : List StoreOp)
    (hsmall : AttrsBelow (new m) (ops.flatMap StoreOp.events)) :
    ∃ s, exec apply ops (new m) = some s
      ∧ (∀ id, (s.trace id).isSome ↔ arrivals (ops.flatMap StoreOp.events) (new m) id ≠ [])
      ∧ ∀ id t, s.trace id = some t →
        let events := ops.flatMap StoreOp.events
        let arrived := arrivals events (new m) id
        let ids := (arrived.map (·.span_id)).eraseDups
        t.span_count = ids.length ∧ (∀ i, t.span_id i = ids[i]?)
          ∧ ∀ i span_id, ids[i]? = some span_id →
            ∃ last, lastWith NewSpan.span_id arrived span_id = some last
              ∧ Shows s t i (accepted GLOBAL_INTERNER_CAP (keys_shown events))
                  (accepted GLOBAL_INTERNER_CAP (services_shown events)) last := by
  obtain ⟨s, hs, hh⟩ := run_holds m _ hsmall
  refine ⟨s, by rw [exec_apply]; exact hs, hh.isSome_iff, fun id t ht => ?_⟩
  have hc := (hh.resident id t ht).columns
  have hids : t.span_ids
      = ((arrivals (ops.flatMap StoreOp.events) (new m) id).map (·.span_id)).eraseDups := by
    rw [hc.span_ids]
    exact lastWrites_keys _
  refine ⟨by rw [Trace.span_count, hids], fun i => by rw [Trace.span_id, hids], ?_⟩
  -- index `i` is row `i`, and a row is the last write with its id
  intro i span_id hi
  rw [← hids, hc.span_ids, List.getElem?_map, Option.map_eq_some_iff] at hi
  obtain ⟨last, hlast, rfl⟩ := hi
  exact ⟨last, lastWrites_getElem? hlast, hh.shows ht (hsmall.last hs ht) hlast⟩

/-- Two traces, an overwrite that grows a span in front of another one, and a
sweep that takes the older trace. -/
def overwrite_then_evict : List StoreOp :=
  let a := { Trace.span 1 none "a" with attributes := [("k1", .bool true)] }
  let b := { Trace.span 2 (some 1) "b" with attributes := [("k2", .int 7)] }
  let a' := { a with name := "a2", attributes := [("k1", .bool false), ("k3", .str "x")] }
  [.insert_span (tid 1) (Trace.span 9 none "old") 1 TraceOrder.by_id,
    .insert_span_no_evict (tid 2) a 2, .insert_span_no_evict (tid 2) b 3,
    .insert_span_no_evict (tid 2) a' 4, .evict_over_budget TraceOrder.by_id]

theorem run_refines_overwrite :
    ∃ s t, exec apply overwrite_then_evict (new 250) = some s ∧ s.trace (tid 1) = none
      ∧ s.trace (tid 2) = some t ∧ t.span_count = 2 ∧ t.span_id 1 = some (sid 2)
      ∧ t.name 0 = some "a2" := by
  obtain ⟨s, hs, hresident, h⟩ :=
    run_refines 250 overwrite_then_evict (AttrsBelow.of_sent (by decide +kernel))
  have hgone : s.trace (tid 1) = none := by
    rw [← Option.not_isSome_iff_eq_none, hresident]
    decide +kernel
  obtain ⟨t, ht⟩ := Option.isSome_iff_exists.mp ((hresident (tid 2)).mpr (by decide +kernel))
  obtain ⟨hcount, hids, hshows⟩ := h (tid 2) t ht
  obtain ⟨last, hlast, hshow⟩ := hshows 0 (sid 1) (by decide +kernel)
  have hname : (lastWith NewSpan.span_id (arrivals (overwrite_then_evict.flatMap StoreOp.events)
      (new 250) (tid 2)) (sid 1)).map (·.name) = some "a2" := by decide +kernel
  rw [hlast, Option.map_some, Option.some.injEq] at hname
  refine ⟨s, t, hs, hgone, ht, ?_, ?_, ?_⟩
  · rw [hcount]
    decide +kernel
  · rw [hids]
    decide +kernel
  · rw [hshow.name, hname]

end Store

end Spanfall
