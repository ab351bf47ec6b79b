/-
`Reorder.lean` -- what a store shows does not depend on the order of arrival.

The local indices, the interned ids, the waiting lists and the generation are
all decided by the order in which spans arrive. What the accessors show once
these are resolved is not: a span is shown as it was sent, and its parent is
shown if the trace has been sent a span with that id ([`view_of`],
[`span_view_of_run`]). That is a function of the spans as a collection, and so
is a trace's summary ([`summary_of`]). The condition is that the interners and
the budget have room, that no span is sent twice, and that no trace is sent
`2 ^ 32` attributes; past that the offsets wrap and the order shows
([`order_past_the_limit`]).
-/
import Spanfall.Store.Parents
import Spanfall.Store.Renumber
import Spanfall.Store.Retry

set_option autoImplicit false

namespace Spanfall

open Lib.HashMap Lib.LastWrite Lib.Runs Lib.Vec

/-! ## What a collection of spans shows -/

/-- What the accessors show of one span, ids and local indices resolved. -/
structure SpanView where
  name : String
  start_time_unix_nano : UInt64
  end_time_unix_nano : UInt64
  status_message : String
  status_code : Int32
  unknown_service : Bool
  service : Option String
  attributes : List (String × AttrValue)
  orphan : Bool
  parent : Option SpanId
  deriving DecidableEq

/-- The view of `span` when `spans` is what its trace has been sent. -/
def view_of (spans : List NewSpan) (span : NewSpan) : SpanView where
  name := span.name
  start_time_unix_nano := span.start_time_unix_nano
  end_time_unix_nano := span.end_time_unix_nano
  status_message := span.status_message
  status_code := span.status_code
  unknown_service := span.unknown_service
  service := span.service_name
  attributes := span.attributes
  orphan := span.parent_span_id.any fun q => decide (q ∉ spans.map (·.span_id))
  parent := span.parent_span_id.filter fun q => decide (q ∈ spans.map (·.span_id))

/-- The services that `spans` name. -/
def service_names (spans : List NewSpan) : Finset String :=
  (spans.filterMap (·.service_name)).toFinset

/-- The summary of a trace that has been sent `spans`, with its services. -/
def summary_of (id : TraceId) (spans : List NewSpan) (services : List String) : TraceSummary where
  trace_id := id.to_hex
  span_count := spans.length
  duration_nanos := do
    let earliest_start ← (spans.map (·.start_time_unix_nano)).min?
    let latest_end ← (spans.map (·.end_time_unix_nano)).max?
    checked_sub latest_end earliest_start
  services := services

/-! ## Neither depends on the order -/

section Perm

variable {spans spans' : List NewSpan}

theorem max_word (a b : UInt64) : max a b = if a ≤ b then b else a := rfl

/-- What core's lemmas on `max?` ask of an order. -/
instance lawfulOrderMax_word : Std.LawfulOrderMax UInt64 := by
  refine .of_max_le_iff ?_ ?_
  · intro a b c
    rw [max_word]
    by_cases hab : a ≤ b
    · rw [if_pos hab]
      exact ⟨fun hb => ⟨UInt64.le_trans hab hb, hb⟩, fun h => h.2⟩
    · rw [if_neg hab]
      have hba : b ≤ a := UInt64.le_of_lt (UInt64.not_le.mp hab)
      exact ⟨fun ha => ⟨ha, UInt64.le_trans hba ha⟩, fun h => h.1⟩
  · intro a b
    rw [max_word]
    by_cases hab : a ≤ b
    · exact Or.inr (if_pos hab)
    · exact Or.inl (if_neg hab)

theorem min?_perm {v w : List UInt64} (h : v.Perm w) : v.min? = w.min? := by
  refine Option.ext fun a => ?_
  rw [List.min?_eq_some_iff, List.min?_eq_some_iff]
  simp only [h.mem_iff]

theorem max?_perm {v w : List UInt64} (h : v.Perm w) : v.max? = w.max? := by
  refine Option.ext fun a => ?_
  rw [List.max?_eq_some_iff, List.max?_eq_some_iff]
  simp only [h.mem_iff]

theorem view_of_perm (h : spans.Perm spans') (span : NewSpan) :
    view_of spans span = view_of spans' span := by
  simp only [view_of, (h.map _).mem_iff]

theorem service_names_perm (h : spans.Perm spans') : service_names spans = service_names spans' :=
  List.toFinset_eq_of_perm _ _ (h.filterMap _)

theorem summary_of_perm (h : spans.Perm spans') (id : TraceId) (services : List String) :
    summary_of id spans services = summary_of id spans' services := by
  unfold summary_of
  rw [h.length_eq, min?_perm (h.map _), max?_perm (h.map _)]

end Perm

/-! ## The view of one row -/

namespace Store

/-- The view of row `i`. -/
def row_view (self : Store) (t : Trace) (i : ℕ) : Option SpanView := do
  let service_name_id ← t.service_name_id i
  let attribute_keys ← t.attribute_keys i
  let attributes ← t.attributes i
  let parent_idx ← t.parent_idx i
  return { name := ← t.name i
           start_time_unix_nano := ← t.start_time_unix_nano i
           end_time_unix_nano := ← t.end_time_unix_nano i
           status_message := ← t.status_message i
           status_code := ← t.status_code i
           unknown_service := ← t.unknown_service i
           service := ← service_name_id.mapM self.service_name
           attributes := (← attribute_keys.mapM self.attribute_key).zip attributes
           orphan := ← t.is_orphan i
           parent := ← parent_idx.mapM t.span_id }

/-- The view of a span by its trace's and its own id. -/
def span_view (self : Store) (trace_id : TraceId) (span_id : SpanId) : Option SpanView := do
  let t ← self.trace trace_id
  let i ← t.span_ids.idxOf? span_id
  self.row_view t i

end Store

section Row

variable {s : Store} {t : Trace} {ks ss : List String} {spans : List NewSpan} {i : ℕ}
  {span : NewSpan}

/-- The parent of a row, as the links show it. -/
theorem Links.parent_shown (h : Links t spans) (hi : spans[i]? = some span) :
    t.is_orphan i
        = some (span.parent_span_id.any fun q => decide (q ∉ spans.map (·.span_id)))
      ∧ ((t.parent_idx i).bind fun p => p.mapM t.span_id)
        = some (span.parent_span_id.filter fun q => decide (q ∈ spans.map (·.span_id))) := by
  obtain ⟨hp, ho⟩ := h.row_link hi
  rw [hp, ho, ← h.span_ids]
  cases span.parent_span_id with
  | none => exact ⟨rfl, rfl⟩
  | some q =>
    -- the index of ids knows a span exactly when the column lists its id
    have hin := h.index_isSome q
    cases hl : t.span_index.lookup q with
    | none =>
      rw [hl] at hin
      have hout : q ∉ t.span_ids := by simpa using hin
      simp [hl, hout, Option.filter_some]
    | some j =>
      rw [hl] at hin
      have hmem : q ∈ t.span_ids := by simpa using hin
      have hj : t.span_id j = some q := (h.index q j).mp hl
      simp [hl, hmem, hj, Option.filter_some]

/-- A row shows what was last sent of it, hung where it was first sent. -/
theorem row_view_shows {first : NewSpan} (hshows : Store.Shows s t i ks ss span)
    (hlinks : Links t spans) (hi : spans[i]? = some first) :
    s.row_view t i = some { view_of spans { span with parent_span_id := first.parent_span_id } with
      service := span.service_name.filter fun n => decide (n ∈ ss)
      attributes := Store.restrict_attrs ks span.attributes } := by
  obtain ⟨horphan, hparent⟩ := hlinks.parent_shown hi
  obtain ⟨service_name_id, hid, hsvc⟩ := Option.bind_eq_some_iff.mp hshows.service
  obtain ⟨keys, hkeys, hkey⟩ := Option.bind_eq_some_iff.mp hshows.attribute_keys
  obtain ⟨parent_idx, hidx, hparent⟩ := Option.bind_eq_some_iff.mp hparent
  have hzip : ((Store.restrict_attrs ks span.attributes).map Prod.fst).zip
      ((Store.restrict_attrs ks span.attributes).map Prod.snd)
        = Store.restrict_attrs ks span.attributes := by
    rw [List.zip_map', List.map_id']
  simp only [Store.row_view, hid, hsvc, hkeys, hkey, hshows.attributes, hidx, hparent, horphan,
    hshows.name, hshows.start_time, hshows.end_time, hshows.status_code, hshows.status_message,
    hshows.unknown_service, hzip, Option.bind_eq_bind, Option.bind_some, Option.pure_def]
  rfl

/-- What a view has for attributes comes from the row's values. -/
theorem row_view_attributes {v : SpanView} (h : s.row_view t i = some v) :
    ∃ (names : List String) (values : List AttrValue), t.attributes i = some values
      ∧ v.attributes = names.zip values := by
  obtain ⟨_, _, h⟩ := Option.bind_eq_some_iff.mp h
  obtain ⟨_, _, h⟩ := Option.bind_eq_some_iff.mp h
  obtain ⟨values, hvalues, h⟩ := Option.bind_eq_some_iff.mp h
  obtain ⟨_, _, h⟩ := Option.bind_eq_some_iff.mp h
  obtain ⟨_, _, h⟩ := Option.bind_eq_some_iff.mp h
  obtain ⟨_, _, h⟩ := Option.bind_eq_some_iff.mp h
  obtain ⟨_, _, h⟩ := Option.bind_eq_some_iff.mp h
  obtain ⟨_, _, h⟩ := Option.bind_eq_some_iff.mp h
  obtain ⟨_, _, h⟩ := Option.bind_eq_some_iff.mp h
  obtain ⟨_, _, h⟩ := Option.bind_eq_some_iff.mp h
  obtain ⟨_, _, h⟩ := Option.bind_eq_some_iff.mp h
  obtain ⟨names, _, h⟩ := Option.bind_eq_some_iff.mp h
  obtain ⟨_, _, h⟩ := Option.bind_eq_some_iff.mp h
  obtain ⟨_, _, h⟩ := Option.bind_eq_some_iff.mp h
  obtain rfl := Option.some.inj h
  exact ⟨names, values, hvalues, rfl⟩

/-- **A row is shown as it was sent** where the interners know its strings. -/
theorem row_view_eq (hshows : Store.Shows s t i ks ss span) (hlinks : Links t spans)
    (hi : spans[i]? = some span) (hkeys : ∀ kv ∈ span.attributes, kv.1 ∈ ks)
    (hservice : ∀ n, span.service_name = some n → n ∈ ss) :
    s.row_view t i = some (view_of spans span) := by
  -- nothing of the span is left out
  have hattrs : Store.restrict_attrs ks span.attributes = span.attributes := by
    refine List.filter_eq_self.mpr fun kv hkv => ?_
    exact decide_eq_true (hkeys kv hkv)
  have hname : span.service_name.filter (fun n => decide (n ∈ ss)) = span.service_name := by
    cases hn : span.service_name with
    | none => rfl
    | some n => rw [Option.filter_some, if_pos (decide_eq_true (hservice n hn))]
  rw [row_view_shows hshows hlinks hi, hattrs, hname]
  rfl

end Row

/-! ## A run that evicts nothing -/

namespace Store

variable {m : ℕ} {es : List Event} {e : Event} {s s' : Store} {id : TraceId}

/-- How many attributes a trace is sent. -/
def attrs_sent_to (es : List Event) (id : TraceId) : ℕ :=
  ((sent_to es id).map fun span => span.attributes.length).sum

theorem attrs_sent_to_append (es fs : List Event) (id : TraceId) :
    attrs_sent_to es id ≤ attrs_sent_to (es ++ fs) id := by
  rw [attrs_sent_to, attrs_sent_to, sent_to_append, List.map_append, List.sum_append]
  exact Nat.le_add_right _ _

/-- No trace is sent more than all traces together. -/
theorem attrs_sent_to_le (es : List Event) (id : TraceId) : attrs_sent_to es id ≤ attrs_sent es := by
  induction es using List.reverseRecOn with
  | nil => exact Nat.le_refl 0
  | append_singleton es e ih =>
    rw [attrs_sent_to, sent_to_snoc, List.map_append, List.sum_append, attrs_sent, keys_shown_snoc,
      List.length_append]
    refine Nat.add_le_add ih ?_
    cases e with
    | insert trace_id span now =>
      by_cases hid : trace_id = id
      · simp [Event.sent, Event.keys, hid]
      · simp [Event.sent, hid]
    | malformed count => exact Nat.zero_le _
    | sweep order => exact Nat.zero_le _

/-- A trace holds no more attributes than it has been sent. -/
theorem attr_keys_le_sent_to (h : exec step es (new m) = some s) :
    ∀ id t, s.trace id = some t → t.attr_keys.length ≤ attrs_sent_to es id := by
  refine resident_of_run (P := fun es id t => t.attr_keys.length ≤ attrs_sent_to es id) ?_ ?_ h
  · intro es e id t hle
    exact hle.trans (attrs_sent_to_append es [e] id)
  · intro es s trace_id span now svc t key out _ ih hins
    obtain ⟨_, _, _, _, hlen, _⟩ := Trace.insert_frame hins
    rw [entry_attr_keys] at hlen
    have hold : (((s.trace trace_id).map (·.attr_keys)).getD []).length
        ≤ attrs_sent_to es trace_id := by
      cases hu : s.trace trace_id with
      | none => exact Nat.zero_le _
      | some u => exact ih u hu
    have hsent : attrs_sent_to (es ++ [.insert trace_id span now]) trace_id
        = attrs_sent_to es trace_id + span.attributes.length := by
      rw [attrs_sent_to, sent_to_snoc]
      simp [Event.sent, attrs_sent_to]
    rw [hsent]
    exact hlen.trans (Nat.add_le_add_right hold _)

/-- So it is enough that no trace is sent `2 ^ 32` attributes. -/
theorem AttrsBelow.of_sent_to (h : ∀ id, attrs_sent_to es id < 2 ^ 32) :
    AttrsBelow (new m) es := by
  rintro es₁ es₂ s id t rfl hs ht
  have hle := attr_keys_le_sent_to hs id t ht
  exact lt_of_le_of_lt (hle.trans (attrs_sent_to_append es₁ es₂ id)) (h id)

/-- A counter of evictions at zero was at zero one event before, and a sweep in
between did nothing. -/
theorem kept_of_step (he : s.step e = some s') (h : s'.counters.evicted_traces = 0) :
    s.counters.evicted_traces = 0 ∧ ∀ order, e = .sweep order → s' = s := by
  cases e with
  | insert trace_id span now =>
    obtain ⟨⟨s₁, out⟩, hins, rfl⟩ := Option.map_eq_some_iff.mp he
    obtain ⟨_, _, _, _, _, _, _, hcounters, _⟩ := insert_cases hins
    rw [hcounters] at h
    refine ⟨h, ?_⟩
    intro order heq
    cases heq
  | malformed count =>
    obtain rfl := Option.some.inj he
    refine ⟨h, ?_⟩
    intro order heq
    cases heq
  | sweep order =>
    have hsweep := sweep_of_evict he
    have hle := hsweep.evicted_traces_le
    have hzero : s.counters.evicted_traces = 0 := by omega
    refine ⟨hzero, fun _ _ => ?_⟩
    exact hsweep.eq_of_evicted_traces (h.trans hzero.symm)

/-- **Where nothing is evicted, a trace's history is all that it was sent.** -/
theorem arrivals_of_kept (hs : exec step es (new m) = some s)
    (h : s.counters.evicted_traces = 0) (id : TraceId) :
    arrivals es (new m) id = sent_to es id ∧ (s.trace id = none → sent_to es id = []) := by
  induction es using List.reverseRecOn generalizing s with
  | nil => exact ⟨rfl, fun _ => rfl⟩
  | append_singleton es e ih =>
    obtain ⟨s₀, hs₀, he⟩ := exec_snoc_some hs
    obtain ⟨hzero, hsweep⟩ := kept_of_step he h
    obtain ⟨harrived, habsent⟩ := ih hs₀ hzero
    have hsnoc : arrivals (es ++ [e]) (new m) = arrive (arrivals es (new m)) s₀ e s :=
      ghost_snoc hs₀ he _
    rw [hsnoc, sent_to_snoc]
    cases e with
    | insert trace_id span now =>
      obtain ⟨t', htrace, _⟩ := step_insert he
      by_cases hid : id = trace_id
      · subst hid
        refine ⟨by simp [arrive, Event.sent, harrived], ?_⟩
        rw [htrace, if_pos rfl]
        intro hnone
        cases hnone
      · have hne : ¬trace_id = id := fun e => hid e.symm
        rw [htrace, if_neg hid]
        have hother : (Event.insert trace_id span now).sent.filterMap
            (fun p => if p.1 = id then some p.2 else none) = [] := by
          simp [Event.sent, hne]
        rw [hother, List.append_nil]
        refine ⟨?_, habsent⟩
        simpa only [arrive, if_neg hid] using harrived
    | malformed count =>
      obtain rfl := Option.some.inj he
      simp only [arrive, Event.sent, List.filterMap_nil, List.append_nil]
      exact ⟨harrived, habsent⟩
    | sweep order =>
      -- the sweep did nothing, and a trace that is absent was sent nothing
      obtain rfl := hsweep order rfl
      simp only [arrive, Event.sent, List.filterMap_nil, List.append_nil]
      refine ⟨?_, habsent⟩
      cases ht : s.trace id with
      | some t => simpa using harrived
      | none => simpa using (habsent ht).symm

/-- A run of distinct spans in which nothing is evicted, refused or past the
attribute limit. -/
structure Complete (m : ℕ) (es : List Event) (s : Store) : Prop where
  run : exec step es (new m) = some s
  distinct : ((sent es).map fun p => (p.1, p.2.span_id)).Nodup
  small : ∀ id, attrs_sent_to es id < 2 ^ 32
  kept : s.counters.evicted_traces = 0
  unrefused : s.Unrefused

namespace Complete

variable {t : Trace} {span : NewSpan} {i : ℕ}

/-- The spans of one trace are distinct by their own ids. -/
theorem span_ids_nodup (h : Complete m es s) (id : TraceId) :
    ((sent_to es id).map (·.span_id)).Nodup := by
  have hpairs : (sent_to es id).map (·.span_id)
      = ((sent es).map fun p => (p.1, p.2.span_id)).filterMap
          fun q => if q.1 = id then some q.2 else none := by
    rw [sent_to, List.map_filterMap, List.filterMap_map]
    congr 1
    funext p
    by_cases hid : p.1 = id <;> simp [hid]
  rw [hpairs]
  refine h.distinct.filterMap fun q q' span_id hq hq' => ?_
  obtain ⟨rfl, rfl⟩ : q.1 = id ∧ q.2 = span_id := by simpa using hq
  obtain ⟨hid, hspan⟩ : q'.1 = q.1 ∧ q'.2 = q.2 := by simpa using hq'
  exact Prod.ext hid.symm hspan.symm

theorem holds (h : Complete m es s) :
    s.Holds (keys_shown es) (services_shown es) (arrivals es (new m)) :=
  holds_of_run h.run (AttrsBelow.of_sent_to h.small)

/-- A resident trace holds the spans it was sent, as they were sent. -/
theorem resident (h : Complete m es s) (ht : s.trace id = some t) :
    Columns t s.key_interner s.service_interner (sent_to es id) ∧ Links t (sent_to es id) := by
  obtain ⟨harrived, _⟩ := arrivals_of_kept h.run h.kept id
  obtain ⟨hcolumns, hlinks⟩ := h.holds.resident id t ht
  rw [harrived] at hcolumns hlinks
  rw [lastWrites_of_nodup (h.span_ids_nodup id)] at hcolumns
  rw [firsts, firstWrites_of_nodup (h.span_ids_nodup id)] at hlinks
  exact ⟨hcolumns, hlinks⟩

theorem resident_iff (h : Complete m es s) (id : TraceId) :
    (s.trace id).isSome ↔ sent_to es id ≠ [] := by
  cases ht : s.trace id with
  | none =>
    have hnone := (arrivals_of_kept h.run h.kept id).2 ht
    simp [hnone]
  | some t =>
    obtain ⟨hcolumns, _⟩ := h.resident ht
    have hpos := span_count_pos h.run ht
    rw [Trace.span_count, hcolumns.span_ids, List.length_map, List.length_pos_iff] at hpos
    simp [hpos]

theorem row_shows (h : Complete m es s) (ht : s.trace id = some t)
    (hi : (sent_to es id)[i]? = some span) :
    Shows s t i (accepted GLOBAL_INTERNER_CAP (keys_shown es))
      (accepted GLOBAL_INTERNER_CAP (services_shown es)) span := by
  refine h.holds.shows ht ((AttrsBelow.of_sent_to h.small).last h.run ht) ?_
  rw [(arrivals_of_kept h.run h.kept id).1, lastWrites_of_nodup (h.span_ids_nodup id)]
  exact hi

/-- Every string of a span that was sent is among the accepted ones. -/
theorem accepted_of_sent (h : Complete m es s) (hspan : span ∈ sent_to es id) :
    (∀ kv ∈ span.attributes, kv.1 ∈ accepted GLOBAL_INTERNER_CAP (keys_shown es))
      ∧ ∀ n, span.service_name = some n → n ∈ accepted GLOBAL_INTERNER_CAP (services_shown es) := by
  have hh := h.holds
  obtain ⟨hkeys, hservices⟩ := h.unrefused.known h.run
  have hin : span ∈ arrivals es (new m) id := by
    rw [(arrivals_of_kept h.run h.kept id).1]
    exact hspan
  obtain ⟨hattrs, hname⟩ := hh.shown id span hin
  constructor
  · intro kv hkv
    rw [← hh.key_cap, ← hh.key.lookup_isSome]
    exact hkeys kv.1 (hattrs kv hkv)
  · intro n hn
    rw [← hh.service_cap, ← hh.service.lookup_isSome]
    exact hservices n (hname n hn)

theorem row_view (h : Complete m es s) (ht : s.trace id = some t)
    (hi : (sent_to es id)[i]? = some span) :
    s.row_view t i = some (view_of (sent_to es id) span) := by
  obtain ⟨hkeys, hservice⟩ := h.accepted_of_sent (List.mem_of_getElem? hi)
  exact row_view_eq (h.row_shows ht hi) (h.resident ht).2 hi hkeys hservice

/-- **What a span shows is a function of the spans its trace was sent.** -/
theorem span_view (h : Complete m es s) (id : TraceId) (span_id : SpanId) :
    s.span_view id span_id
      = (firstWith NewSpan.span_id (sent_to es id) span_id).map (view_of (sent_to es id)) := by
  unfold Store.span_view
  cases ht : s.trace id with
  | none =>
    rw [(arrivals_of_kept h.run h.kept id).2 ht]
    rfl
  | some t =>
    obtain ⟨hcolumns, hlinks⟩ := h.resident ht
    have hids := hcolumns.span_ids
    cases hspan : firstWith NewSpan.span_id (sent_to es id) span_id with
    | none =>
      have hout : span_id ∉ t.span_ids := by
        rw [hids, ← firstWith_isSome, hspan]
        exact Bool.false_ne_true
      have hnone : t.span_ids.idxOf? span_id = none := List.idxOf?_eq_none_iff.mpr hout
      simp [hnone]
    | some span =>
      obtain ⟨hmem, rfl⟩ := (firstWith_of_nodup (h.span_ids_nodup id)).mp hspan
      obtain ⟨i, hi⟩ := List.mem_iff_getElem?.mp hmem
      have hat : t.span_ids[i]? = some span.span_id := by
        rw [hids, List.getElem?_map, hi]
        rfl
      -- the search by id ends at the span's own row
      obtain ⟨j, hj⟩ := Option.isSome_iff_exists.mp
        (List.isSome_idxOf?.mpr (List.mem_of_getElem? hat))
      have hat' : t.span_ids[j]? = some span.span_id := by
        obtain ⟨hlt, heq, _⟩ := List.idxOf?_eq_some_iff.mp hj
        rw [List.getElem?_eq_getElem hlt, heq]
      obtain rfl := index_unique hlinks.nodup hat hat'
      simp [hj, h.row_view ht hi]

/-- The services of a trace, resolved row by row. -/
theorem trace_services (h : Complete m es s) (ht : s.trace id = some t) :
    s.trace_services t = some ((service_names (sent_to es id)).sort (· ≤ ·)) := by
  obtain ⟨hcolumns, _⟩ := h.resident ht
  have hcount : (sent_to es id).length = t.span_count := by
    rw [Trace.span_count, hcolumns.span_ids, List.length_map]
  have hnames : (List.range t.span_count).mapM (fun i => do
      let service_id ← t.service_name_id i
      service_id.mapM s.service_name) = some ((sent_to es id).map (·.service_name)) := by
    refine mapM_range_of_getElem? hcount fun i span hspan => ?_
    have hservice := (h.row_shows ht hspan).service
    have hknown := (h.accepted_of_sent (List.mem_of_getElem? hspan)).2
    refine hservice.trans (congrArg some ?_)
    cases hn : span.service_name with
    | none => rfl
    | some n => simp [Option.filter_some, hknown n hn]
  unfold Store.trace_services
  rw [hnames]
  simp only [Option.bind_eq_bind, Option.bind_some, Option.pure_def, List.filterMap_map]
  rfl

/-- **What a trace's summary says is a function of the spans it was sent.** -/
theorem summarize (h : Complete m es s) (ht : s.trace id = some t) :
    s.summarize id t = some (summary_of id (sent_to es id)
      ((service_names (sent_to es id)).sort (· ≤ ·))) := by
  obtain ⟨hcolumns, _⟩ := h.resident ht
  unfold Store.summarize summary_of
  rw [h.trace_services ht, Trace.duration_nanos, hcolumns.start_times, hcolumns.end_times,
    Trace.span_count, hcolumns.span_ids, List.length_map]
  rfl

theorem list_traces (h : Complete m es s) (order : TraceOrder) :
    s.list_traces order
      = some (((order.iter s.traces).map (·.1)).map fun id =>
          summary_of id (sent_to es id) ((service_names (sent_to es id)).sort (· ≤ ·))) := by
  rw [Store.list_traces, List.map_map]
  refine mapM_of_forall fun e he => ?_
  exact h.summarize (order.mem_iter_lookup.mp he)

end Complete

/-! ## Two orders -/

theorem sent_to_perm {es' : List Event} (h : (sent es).Perm (sent es')) (id : TraceId) :
    (sent_to es id).Perm (sent_to es' id) := h.filterMap _

/-- **The order of arrival does not matter.** Two runs that send the same
distinct spans in two orders, no trace `2 ^ 32` attributes, end; where they
evict and refuse nothing they list the same traces and show every span with
the same name, times, status, service, attributes, orphan flag and parent. -/
theorem order_does_not_matter {m m' : ℕ} {es es' : List Event} (hperm : (sent es).Perm (sent es'))
    (hdistinct : ((sent es).map fun p => (p.1, p.2.span_id)).Nodup)
    (hsmall : ∀ id, attrs_sent_to es id < 2 ^ 32) :
    ∃ s s', exec step es (new m) = some s ∧ exec step es' (new m') = some s'
      ∧ (s.counters.evicted_traces = 0 → s.Unrefused →
          s'.counters.evicted_traces = 0 → s'.Unrefused →
          (∀ order order', ∃ l l', s.list_traces order = some l ∧ s'.list_traces order' = some l'
              ∧ l.Perm l')
            ∧ (∀ id span_id, s.span_view id span_id = s'.span_view id span_id)
            ∧ ∀ p ∈ sent es, (s.span_view p.1 p.2.span_id).isSome) := by
  have hdistinct' : ((sent es').map fun p => (p.1, p.2.span_id)).Nodup :=
    (hperm.map _).nodup_iff.mp hdistinct
  have hsmall' : ∀ id, attrs_sent_to es' id < 2 ^ 32 := by
    intro id
    have hsum : attrs_sent_to es' id = attrs_sent_to es id :=
      ((sent_to_perm hperm id).map _).sum_eq.symm
    rw [hsum]
    exact hsmall id
  -- the runs end, whatever they evict
  obtain ⟨s, hs, _⟩ := run_holds m es (AttrsBelow.of_sent_to hsmall)
  obtain ⟨s', hs', _⟩ := run_holds m' es' (AttrsBelow.of_sent_to hsmall')
  refine ⟨s, s', hs, hs', fun hkept hunrefused hkept' hunrefused' => ?_⟩
  have h : Complete m es s := ⟨hs, hdistinct, hsmall, hkept, hunrefused⟩
  have h' : Complete m' es' s' := ⟨hs', hdistinct', hsmall', hkept', hunrefused'⟩
  refine ⟨fun order order' => ?_, fun id span_id => ?_, fun p hp => ?_⟩
  · -- the same traces are there, and each has one summary
    have hids : ((order.iter s.traces).map (·.1)).Perm ((order'.iter s'.traces).map (·.1)) := by
      refine order.keys_perm order' fun id => ?_
      have hsent := (sent_to_perm hperm id).length_eq
      change (s.trace id).isSome ↔ (s'.trace id).isSome
      rw [h.resident_iff, h'.resident_iff, ← List.length_pos_iff, hsent, List.length_pos_iff]
    refine ⟨_, _, h.list_traces order, h'.list_traces order', ?_⟩
    have hsummary : ∀ id,
        summary_of id (sent_to es id) ((service_names (sent_to es id)).sort (· ≤ ·))
          = summary_of id (sent_to es' id) ((service_names (sent_to es' id)).sort (· ≤ ·)) := by
      intro id
      rw [service_names_perm (sent_to_perm hperm id)]
      exact summary_of_perm (sent_to_perm hperm id) id _
    rw [List.map_congr_left fun id _ => hsummary id]
    exact hids.map _
  · -- one id names one span in either order
    rw [h.span_view, h'.span_view, firstWith_perm (sent_to_perm hperm id) (h.span_ids_nodup id)]
    congr 1
    exact funext (view_of_perm (sent_to_perm hperm id))
  · have hmem : p.2 ∈ sent_to es p.1 := by
      refine List.mem_filterMap.mpr ⟨p, hp, ?_⟩
      rw [if_pos rfl]
    rw [h.span_view, Option.isSome_map, firstWith_isSome]
    exact List.mem_map_of_mem hmem

/-- A child before its parent, a span of another trace in between, and an
orphan. -/
def child_first : List Event :=
  let child := { Trace.span 2 (some 1) "b" with
    service_name := some "api", attributes := [("k2", .int 7), ("k1", .bool true)] }
  let root := { Trace.span 1 none "a" with
    service_name := some "web", attributes := [("k1", .bool false)] }
  [.insert (tid 1) child 0, .insert (tid 2) (Trace.span 1 none "x") 1, .insert (tid 1) root 2,
    .insert (tid 1) (Trace.span 4 (some 9) "o") 3]

/-- The same spans the other way round, with a sweep behind them. -/
def child_last : List Event := child_first.reverse ++ [.sweep .by_id]

theorem child_first_runs : (exec step child_first (new 10000)).isSome := by decide +kernel

theorem child_last_runs : (exec step child_last (new 10000)).isSome := by decide +kernel

theorem order_does_not_matter_child_first :
    ∃ s s', exec step child_first (new 10000) = some s ∧ exec step child_last (new 10000) = some s'
      ∧ (∀ id span_id, s.span_view id span_id = s'.span_view id span_id)
      ∧ ∀ p ∈ sent child_first, (s.span_view p.1 p.2.span_id).isSome := by
  have hsmall : ∀ id, attrs_sent_to child_first id < 2 ^ 32 := fun id =>
    lt_of_le_of_lt (attrs_sent_to_le child_first id) (by decide +kernel)
  obtain ⟨s, s', hs, hs', hsame⟩ := @order_does_not_matter 10000 10000 child_first child_last
    (by decide +kernel) (by decide +kernel) hsmall
  obtain rfl := Option.some.inj (hs.symm.trans (Option.some_get child_first_runs).symm)
  obtain rfl := Option.some.inj (hs'.symm.trans (Option.some_get child_last_runs).symm)
  obtain ⟨_, hview, hsome⟩ := hsame (by decide +kernel) ⟨by decide +kernel, by decide +kernel⟩
    (by decide +kernel) ⟨by decide +kernel, by decide +kernel⟩
  exact ⟨_, _, hs, hs', hview, hsome⟩

/-! ## Past the attribute limit

Spans of `2 ^ 16` attributes fill the offsets. A span that arrives after them
starts at the limit and shows the first one's attribute; one that arrived before
them shows its own. -/

namespace Sole

variable {R : List NewSpan} {t : Trace} {r : NewSpan} {i : ℕ}

/-- A row that ends below the limit is shown with its attributes. -/
theorem span_view (h : Sole s R) (hr : R[i]? = some r) (hend : attrs_before R (i + 1) < 2 ^ 32) :
    ∃ v, s.span_view (tid 1) r.span_id = some v ∧ v.attributes = r.attributes := by
  obtain ⟨ks, ss, arrived, hh, hks, _, rfl⟩ := h
  have hin := mem_of_mem_lastWrites (List.mem_of_getElem? hr)
  obtain ⟨t, ht⟩ := Option.isSome_iff_exists.mp
    ((hh.isSome_iff (tid 1)).mpr (List.ne_nil_of_mem hin))
  obtain ⟨hcolumns, hlinks⟩ := hh.resident _ t ht
  have hshows := hh.shows_of_end ht hr (by rwa [hh.offset_eq hks])
  have hall : restrict_attrs (accepted GLOBAL_INTERNER_CAP ks) r.attributes = r.attributes :=
    hh.restrict_attrs_few hks hin
  -- the links know the row too, whatever was sent of it first
  have hat : t.span_ids[i]? = some r.span_id := by
    rw [hcolumns.span_ids, List.getElem?_map, hr, Option.map_some]
  obtain ⟨first, hfirst⟩ : ∃ first, (firsts (arrived (tid 1)))[i]? = some first := by
    rw [hlinks.span_ids, List.getElem?_map, Option.map_eq_some_iff] at hat
    obtain ⟨first, hfirst, _⟩ := hat
    exact ⟨first, hfirst⟩
  have hidx : t.span_ids.idxOf? r.span_id = some i := (idxOf?_of_nodup hlinks.nodup).mpr hat
  have hspan : s.span_view (tid 1) r.span_id = s.row_view t i := by
    rw [Store.span_view, ht, Option.bind_eq_bind, Option.bind_some, hidx, Option.bind_eq_bind,
      Option.bind_some]
  exact ⟨_, hspan.trans (row_view_shows hshows hlinks hfirst), hall⟩

/-- A row with one attribute that starts at the limit is shown with the first
row's value. -/
theorem span_view_wrapped {first : NewSpan} {a : String × AttrValue}
    {as : List (String × AttrValue)} (h : Sole s (first :: R)) (hfirst : first.attributes = a :: as)
    (hr : (first :: R)[i]? = some r) (hwrap : attrs_before (first :: R) i = 2 ^ 32)
    (hone : attrs_before (first :: R) (i + 1) = 2 ^ 32 + 1) {v : SpanView}
    (hv : s.span_view (tid 1) r.span_id = some v) : ∀ kv ∈ v.attributes, kv.2 = a.2 := by
  obtain ⟨t, ht, hcolumns, _⟩ := h.trace (List.cons_ne_nil _ _)
  have hat : t.span_ids[i]? = some r.span_id := by
    rw [hcolumns.span_ids, List.getElem?_map, hr, Option.map_some]
  have hidx : t.span_ids.idxOf? r.span_id = some i :=
    (idxOf?_of_nodup (hcolumns.span_ids ▸ h.nodup)).mpr hat
  have hvalues := h.attributes_wrapped hfirst ht (List.getElem?_eq_some_iff.mp hr).1 hwrap hone
  rw [Store.span_view, ht, Option.bind_eq_bind, Option.bind_some, hidx, Option.bind_eq_bind,
    Option.bind_some] at hv
  obtain ⟨names, values, hrow, hzip⟩ := row_view_attributes hv
  obtain rfl := Option.some.inj (hvalues.symm.trans hrow)
  rw [hzip]
  intro kv hkv
  exact List.mem_singleton.mp (List.of_mem_zip hkv).2

end Sole

/-- Spans sent to the one trace, with two keys and no service, leave no trace in
the counters. -/
theorem sends_uncounted {spans : List NewSpan} (hs : exec step (sends spans) (new m) = some s)
    (hspans : ∀ r ∈ spans, r.attributes.map Prod.fst ⊆ ["a", "b"] ∧ r.service_name = none) :
    s.counters.evicted_traces = 0 ∧ s.Unrefused := by
  have hkeys : keys_shown (sends spans) ⊆ ["a", "b"] := by
    rw [keys_shown, sends, List.flatMap_map]
    intro k hk
    obtain ⟨r, hr, hk⟩ := List.mem_flatMap.mp hk
    exact (hspans r hr).1 hk
  have hservices : services_shown (sends spans) = [] := by
    rw [services_shown, sends, List.flatMap_map, List.flatMap_eq_nil_iff]
    intro r hr
    rw [Event.services, (hspans r hr).2]
    rfl
  have hpairs : sends spans = (spans.map fun r => (tid 1, r)).map fun p => .insert p.1 p.2 0 := by
    rw [sends, List.map_map]
    rfl
  refine ⟨(inserts_counters (hpairs ▸ hs)).1, ?_, ?_⟩
  · rw [key_interner_of_run hs, Interner.cap_hit_count_present (by decide), refused_eq_zero_iff]
    exact eraseDups_of_few hkeys
  · rw [service_interner_of_run hs, hservices]
    rfl

/-- `2 ^ 16` spans of as many attributes and one with a single one, which comes
last or first, and shows another value. -/
theorem order_past_the_limit :
    ∃ (es es' : List Event) (s s' : Store) (span_id : SpanId),
      (∀ p ∈ sent es, p.2.attributes.length ≤ 2 ^ 16) ∧ (sent es).Perm (sent es')
      ∧ ((sent es).map fun p => (p.1, p.2.span_id)).Nodup
      ∧ exec step es (new 0) = some s ∧ exec step es' (new 0) = some s'
      ∧ s.counters.evicted_traces = 0 ∧ s.Unrefused ∧ s'.counters.evicted_traces = 0
      ∧ s'.Unrefused ∧ s.span_view (tid 1) span_id ≠ s'.span_view (tid 1) span_id := by
  obtain ⟨k, hk⟩ : ∃ k : ℕ, k + 1 = 2 ^ 16 := ⟨2 ^ 16 - 1, rfl⟩
  obtain ⟨j, hj⟩ : ∃ j : ℕ, j + 1 = 2 ^ 16 := ⟨2 ^ 16 - 1, rfl⟩
  have hlimit : (j + 1) * (k + 1) = 2 ^ 32 := by
    rw [hk, hj]
    rfl
  -- the same spans, the narrow one last and first
  have hperm : (fillers (k + 1) (j + 1) ++ [narrow (j + 1)]).Perm
      (narrow (j + 1) :: fillers (k + 1) (j + 1)) := List.perm_append_singleton _ _
  have hnodup : ((fillers (k + 1) (j + 1) ++ [narrow (j + 1)]).map (·.span_id)).Nodup := by
    rw [fillers_narrow_ids]
    exact nth_span_ids_nodup (by omega)
  have hspans : ∀ r ∈ fillers (k + 1) (j + 1) ++ [narrow (j + 1)],
      (r.attributes.map Prod.fst ⊆ ["a", "b"] ∧ r.service_name = none)
        ∧ r.attributes.length ≤ k + 1 := by
    intro r hr
    rcases List.mem_append.mp hr with hr | hr
    · obtain ⟨i, _, rfl⟩ := List.mem_map.mp hr
      exact ⟨⟨filler_keys _ i, rfl⟩, by rw [filler, List.length_replicate]⟩
    · rw [List.mem_singleton.mp hr]
      exact ⟨⟨narrow_keys _, rfl⟩, Nat.succ_pos k⟩
  obtain ⟨s, hs, h⟩ := (new_sole 0).pushes (fun r hr => (hspans r hr).1.1) hnodup
  obtain ⟨s', hs', h'⟩ := (new_sole 0).pushes
    (fun r hr => (hspans r (hperm.mem_iff.mpr hr)).1.1) ((hperm.map _).nodup_iff.mp hnodup)
  obtain ⟨hkept, hunrefused⟩ := sends_uncounted hs fun r hr => (hspans r hr).1
  obtain ⟨hkept', hunrefused'⟩ := sends_uncounted hs' fun r hr =>
    (hspans r (hperm.mem_iff.mpr hr)).1
  rw [List.nil_append] at h h'
  refine ⟨_, _, s, s', nth_span_id (j + 1), ?_, ?_, ?_, hs, hs', hkept, hunrefused, hkept',
    hunrefused', fun hsame => ?_⟩
  · intro p hp
    rw [sent_sends] at hp
    obtain ⟨r, hr, rfl⟩ := List.mem_map.mp hp
    exact hk ▸ (hspans r hr).2
  · rw [sent_sends, sent_sends]
    exact hperm.map _
  · have hpairs : ((fillers (k + 1) (j + 1) ++ [narrow (j + 1)]).map fun r => (tid 1, r)).map
        (fun p => (p.1, p.2.span_id)) = ((fillers (k + 1) (j + 1) ++ [narrow (j + 1)]).map
          (·.span_id)).map (Prod.mk (tid 1)) := by
      rw [List.map_map, List.map_map]
      rfl
    rw [sent_sends, hpairs]
    exact hnodup.map (Prod.mk_right_injective _)
  · -- the first view shows a filler's value, the second one the narrow span's own
    obtain ⟨v, hv, hattrs⟩ := h'.span_view (i := 0) (r := narrow (j + 1)) rfl (by
      rw [attrs_before_cons_one]
      exact Nat.one_lt_two_pow (by decide))
    have hsame' : s.span_view (tid 1) (narrow (j + 1)).span_id = some v := hsame.trans hv
    have hat : (fillers (k + 1) (j + 1) ++ [narrow (j + 1)])[j + 1]? = some (narrow (j + 1)) := by
      rw [List.getElem?_append_right (by rw [fillers_length]), fillers_length, Nat.sub_self]
      rfl
    obtain ⟨hwrap, hone⟩ := attrs_before_narrow (k + 1) (j + 1)
    rw [hlimit] at hwrap hone
    rw [fillers_succ] at h hat hwrap hone
    have hother := h.span_view_wrapped rfl hat hwrap hone hsame'
    rw [hattrs] at hother
    exact absurd (hother ("b", .bool false) (List.mem_singleton_self _)) (by decide)

end Store

end Spanfall
