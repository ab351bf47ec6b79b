/-
`Rows.lean` -- what the rows of a trace are to show.

A span has a key, and of the rest a row shows all but the attributes, which are
asked for one by one. A trace shows one row a key, in the order in which the keys
came first: the row carries what came last with its key, but hangs where the span
that came first said ([`show_rows`]). How the keys are written does not matter as
long as they are told apart ([`show_rows_rename`]). The rows the store has for a
trace are these, of the spans that arrived since the trace was last evicted
([`rows_as_arrived`], [`arrivals_suffix`]), and so are the attributes
([`get_attributes_as_sent`]).
-/
import Spanfall.Api.Discipline
import Spanfall.Api.Payload

set_option autoImplicit false

namespace Spanfall

open Lib.LastWrite Lib.Runs Lib.Vec

/-! ## The rows -/

/-- What can be seen of a span. -/
structure Sighting (κ : Type) where
  key : κ
  parent : Option κ
  name : String
  start_time_unix_nano : UInt64
  end_time_unix_nano : UInt64
  status_message : String
  status_code : Int32
  unknown_service : Bool
  service : Option String
  attributes : List (String × AttrValue)
  deriving DecidableEq

namespace Sighting

variable {κ κ' : Type} [DecidableEq κ] [DecidableEq κ']

/-- The row of `last`, which hangs where `first` said. Services that are not
known are not shown. -/
def row (known : String → Bool) (keys : List κ) (last first : Sighting κ) : Row where
  name := last.name
  parent_idx := first.parent.bind fun q => keys.idxOf? q
  start_time_unix_nano := last.start_time_unix_nano
  end_time_unix_nano := last.end_time_unix_nano
  status_message := last.status_message
  status_code := last.status_code
  orphan := first.parent.any fun q => decide (q ∉ keys)
  unknown_service := last.unknown_service
  service := last.service.filter known

/-- The same with its keys written otherwise. -/
def rename (g : κ → κ') (x : Sighting κ) : Sighting κ' :=
  { x with key := g x.key, parent := x.parent.map g }

end Sighting

section Rows

variable {κ κ' : Type} [DecidableEq κ] [DecidableEq κ']

/-- The rows of the spans, one a key. -/
def show_rows (known : String → Bool) (spans : List (Sighting κ)) : List Row :=
  List.zipWith (Sighting.row known (spans.map Sighting.key).eraseDups)
    (lastWrites Sighting.key spans) (firstWrites Sighting.key spans)

theorem show_rows_length (known : String → Bool) (spans : List (Sighting κ)) :
    (show_rows known spans).length = (spans.map Sighting.key).eraseDups.length := by
  have hlast : (lastWrites Sighting.key spans).length
      = (spans.map Sighting.key).eraseDups.length := by
    rw [← lastWrites_keys, List.length_map]
  have hfirst : (firstWrites Sighting.key spans).length
      = (spans.map Sighting.key).eraseDups.length := by
    rw [← firstWrites_keys, List.length_map]
  rw [show_rows, List.length_zipWith, hlast, hfirst, Nat.min_self]

/-- No span, no row. -/
theorem show_rows_eq_nil {known : String → Bool} {spans : List (Sighting κ)} :
    show_rows known spans = [] ↔ spans = [] := by
  rw [← List.length_eq_zero_iff, show_rows_length]
  constructor
  · intro h
    cases spans with
    | nil => rfl
    | cons x spans =>
      rw [List.map_cons, List.eraseDups_cons] at h
      cases h
  · rintro rfl
    rfl

/-- **How the keys are written does not show.** -/
theorem show_rows_rename {g : κ → κ'} (hg : Function.Injective g) (known : String → Bool)
    (spans : List (Sighting κ)) :
    show_rows known (spans.map (Sighting.rename g)) = show_rows known spans := by
  have hkeys : ∀ x y : Sighting κ, (x.rename g).key = (y.rename g).key ↔ x.key = y.key :=
    fun x y => hg.eq_iff
  have hmap : ((spans.map (Sighting.rename g)).map Sighting.key).eraseDups
      = (spans.map Sighting.key).eraseDups.map g := by
    rw [← lastWrites_keys, lastWrites_map hkeys, ← lastWrites_keys, List.map_map, List.map_map]
    rfl
  have hidx : ∀ (keys : List κ) (q : κ), (keys.map g).idxOf? (g q) = keys.idxOf? q := by
    intro keys q
    rw [List.idxOf?, List.idxOf?, List.findIdx?_map]
    congr 1
    funext k
    exact decide_eq_decide.mpr hg.eq_iff
  have hrow : ∀ last first : Sighting κ,
      Sighting.row known ((spans.map Sighting.key).eraseDups.map g) (last.rename g) (first.rename g)
        = Sighting.row known (spans.map Sighting.key).eraseDups last first := by
    intro last first
    unfold Sighting.row Sighting.rename
    cases first.parent with
    | none => rfl
    | some q => simp [hidx, hg.eq_iff]
  rw [show_rows, show_rows, hmap, lastWrites_map hkeys, firstWrites_map hkeys,
    List.zipWith_map]
  congr 1
  funext last first
  exact hrow last first

/-- What `get_attributes` is to answer for the row `idx`: the attributes that came
last with its key. Keys that are not known are not shown. -/
def show_attributes (known : String → Bool) (spans : List (Sighting κ)) (idx : ℕ) :
    Response (List AttributeEntry) :=
  match (lastWrites Sighting.key spans)[idx]? with
  | none => .not_found
  | some last => .ok ((last.attributes.filter fun kv => known kv.1).map fun kv =>
      { key := kv.1, value := kv.2 })

theorem show_attributes_rename {g : κ → κ'} (hg : Function.Injective g) (known : String → Bool)
    (spans : List (Sighting κ)) (idx : ℕ) :
    show_attributes known (spans.map (Sighting.rename g)) idx = show_attributes known spans idx := by
  have hkeys : ∀ x y : Sighting κ, (x.rename g).key = (y.rename g).key ↔ x.key = y.key :=
    fun x y => hg.eq_iff
  rw [show_attributes, show_attributes, lastWrites_map hkeys, List.getElem?_map]
  cases (lastWrites Sighting.key spans)[idx]? <;> rfl

end Rows

/-! ## The rows in the store -/

/-- What can be seen of a span that arrived. -/
def NewSpan.sighting (self : NewSpan) : Sighting SpanId where
  key := self.span_id
  parent := self.parent_span_id
  name := self.name
  start_time_unix_nano := self.start_time_unix_nano
  end_time_unix_nano := self.end_time_unix_nano
  status_message := self.status_message
  status_code := self.status_code
  unknown_service := self.unknown_service
  service := self.service_name
  attributes := self.attributes

/-- The names an interner has room for, out of those it was shown. -/
def interned (ss : List String) (name : String) : Bool :=
  decide (name ∈ accepted GLOBAL_INTERNER_CAP ss)

namespace Store

variable {m : ℕ} {es : List Event} {s : Store} {id : TraceId} {t : Trace}

/-- The row of a trace, read off the spans that arrived last and first. -/
theorem row_as_arrived {u : Trace} {ss : List String} {arrived : List NewSpan}
    (hss : s.service_interner.Holds ss) (hcap : s.service_interner.cap = GLOBAL_INTERNER_CAP)
    (h : BareHolds s.service_interner u arrived) {k : ℕ} {last first : NewSpan}
    (hlast : (lastWrites NewSpan.span_id arrived)[k]? = some last)
    (hfirst : (firsts arrived)[k]? = some first) :
    s.row u k = some (Sighting.row (interned ss) (arrived.map (·.span_id)).eraseDups
      last.sighting first.sighting) := by
  have hbare : ∀ x y : NewSpan, x.bare.span_id = y.bare.span_id ↔ x.span_id = y.span_id :=
    fun x y => Iff.rfl
  have hR : (lastWrites NewSpan.span_id (arrived.map NewSpan.bare))[k]? = some last.bare := by
    rw [lastWrites_map hbare, List.getElem?_map, hlast]
    rfl
  have hF : (firsts (arrived.map NewSpan.bare))[k]? = some first.bare := by
    rw [firsts] at hfirst ⊢
    rw [firstWrites_map hbare, List.getElem?_map, hfirst]
    rfl
  obtain ⟨hcols, hlinks⟩ := h
  have column : ∀ {β : Type} {f : NewSpan → β} {v : List β},
      v = (lastWrites NewSpan.span_id (arrived.map NewSpan.bare)).map f →
      v[k]? = some (f last.bare) := by
    intro β f v hv
    rw [hv, List.getElem?_map, hR]
    rfl
  have hids : u.span_ids = (arrived.map (·.span_id)).eraseDups := by
    rw [hcols.span_ids, lastWrites_keys, List.map_map]
    rfl
  obtain ⟨hparent, horphan⟩ := hlinks.row_link hF
  have hindex : ∀ q, u.span_index.lookup q = (arrived.map (·.span_id)).eraseDups.idxOf? q := by
    intro q
    refine Option.ext fun i => ?_
    rw [hlinks.index, idxOf?_of_nodup (nodup_eraseDups _), hids]
  have hknown : (fun n => decide (n ∈ accepted s.service_interner.cap ss)) = interned ss := by
    rw [hcap]
    rfl
  rw [row, Trace.name, column hcols.names, hparent, Trace.start_time_unix_nano,
    column hcols.start_times, Trace.end_time_unix_nano, column hcols.end_times,
    Trace.status_message, column hcols.status_messages, Trace.status_code,
    column hcols.status_codes, horphan, Trace.unknown_service, column hcols.unknown_services,
    Trace.service_name_id, column hcols.service_name_ids]
  have hservice : (last.bare.service_name.bind s.service_interner.lookup).mapM s.service_name
      = some (last.service_name.filter (interned ss)) := by
    rw [← hknown]
    exact service_resolved hss last.service_name
  have hidx : (first.bare.parent_span_id.bind fun q => u.span_index.lookup q)
      = first.parent_span_id.bind fun q => (arrived.map (·.span_id)).eraseDups.idxOf? q := by
    congr 1
    exact funext hindex
  have hany : (first.bare.parent_span_id.any fun q => (u.span_index.lookup q).isNone)
      = first.parent_span_id.any fun q => decide (q ∉ (arrived.map (·.span_id)).eraseDups) := by
    congr 1
    funext q
    rw [hindex, ← Option.not_isSome, Bool.eq_iff_iff]
    simp
  simp only [Option.pure_def, Option.bind_eq_bind, Option.bind_some, hservice, hidx, hany]
  rfl

/-- **The rows of a resident trace** are those of the spans that arrived. -/
theorem rows_as_arrived (hs : exec step es (new m) = some s) (ht : s.trace id = some t) :
    s.rows t = some (show_rows (interned (services_shown es))
      ((arrivals es (new m) id).map NewSpan.sighting)) := by
  obtain ⟨u, hu, hholds⟩ := (bare_of_run hs).resident id t ht
  obtain ⟨_, hss, hcap⟩ := interners_of_run hs
  have hkeys : ∀ x y : NewSpan, x.sighting.key = y.sighting.key ↔ x.span_id = y.span_id :=
    fun x y => Iff.rfl
  have hids : (((arrivals es (new m) id).map NewSpan.sighting).map Sighting.key)
      = (arrivals es (new m) id).map (·.span_id) := List.map_map
  have hcount : u.span_count = ((arrivals es (new m) id).map (·.span_id)).eraseDups.length := by
    rw [Trace.span_count, hholds.columns.span_ids, lastWrites_keys, List.map_map]
    rfl
  rw [← rows_bare rfl hu, rows, mapM_range_eq_some]
  refine ⟨?_, fun k row hrow => ?_⟩
  · rw [show_rows_length, hids, hcount]
  · rw [show_rows, lastWrites_map hkeys, firstWrites_map hkeys, hids,
      List.getElem?_zipWith_eq_some] at hrow
    obtain ⟨last', first', hlast, hfirst, rfl⟩ := hrow
    rw [List.getElem?_map, Option.map_eq_some_iff] at hlast hfirst
    obtain ⟨last, hlast, rfl⟩ := hlast
    obtain ⟨first, hfirst, rfl⟩ := hfirst
    exact row_as_arrived hss hcap hholds hlast hfirst

/-- **What arrived is an end of what was sent**: what came before the last
eviction is gone. -/
theorem arrivals_suffix (hs : exec step es (new m) = some s) (id : TraceId) :
    arrivals es (new m) id <:+ sent_to es id := by
  refine exec_induction (P := fun es _ => arrivals es (new m) id <:+ sent_to es id)
    (List.suffix_refl _) ?_ hs
  intro es s e s' hrun ih he
  rw [sent_to_snoc, arrivals, ghost_snoc hrun he]
  rw [arrivals] at ih
  cases e with
  | insert trace_id span now =>
    by_cases hid : id = trace_id
    · subst hid
      obtain ⟨before, hbefore⟩ := ih
      refine ⟨before, ?_⟩
      simp only [arrive, Event.sent, if_true, List.filterMap_cons, List.filterMap_nil]
      rw [← List.append_assoc, hbefore]
    · simpa [arrive, Event.sent, hid, Ne.symm hid] using ih
  | malformed count => simpa [arrive, Event.sent] using ih
  | sweep order =>
    dsimp only [arrive]
    by_cases hin : (s'.trace id).isSome
    · simpa [hin, Event.sent] using ih
    · rw [if_neg hin]
      exact List.nil_suffix

/-- Rows change nothing about what stands before the columns. -/
theorem pushes_head (acc : TracePayload × StringTable) (rows : List Row) :
    (rows.foldl push acc).1.trace_id = acc.1.trace_id
      ∧ (rows.foldl push acc).1.generation = acc.1.generation := by
  induction rows generalizing acc with
  | nil => exact ⟨rfl, rfl⟩
  | cons r rows ih => exact ih (push acc r)

end Store

/-- What `get_trace` is to answer for the rows of a trace: nothing is found when
there are none, and else the columns encode them. The string table is decoded as
long as its indices do not wrap. -/
def Encodes (id : TraceId) (rows : List Row) : Response TracePayload → Prop
  | .bad_request _ => False
  | .not_found => rows = []
  | .ok payload => rows ≠ [] ∧ payload.trace_id = id.to_hex ∧ payload.WellFormed rows.length
      ∧ ((rows.flatMap Row.strings).toFinset.card ≤ 2 ^ 32 → payload.rows = some rows)

namespace Store

variable {m : ℕ} {es : List Event} {s : Store} {id : TraceId} {text : String}

/-- What has arrived is what was sent but for the first ones, and without
evictions all of it. -/
theorem arrivals_of_sent (hs : exec step es (new m) = some s) (id : TraceId) :
    ∃ lost, (lost = 0 ∨ 0 < s.counters.evicted_traces)
      ∧ (sent_to es id).drop lost = arrivals es (new m) id := by
  obtain ⟨before, hbefore⟩ := arrivals_suffix hs id
  refine ⟨before.length, ?_, by rw [← hbefore, List.drop_left]⟩
  by_cases hkept : s.counters.evicted_traces = 0
  · left
    rw [(arrivals_of_kept hs hkept id).1] at hbefore
    have hlength := congrArg List.length hbefore
    rw [List.length_append] at hlength
    omega
  · exact Or.inr (Nat.pos_of_ne_zero hkept)

/-- **What `get_trace` answers**: the rows of what arrived since the last eviction. -/
theorem get_trace_as_arrived (hs : exec step es (new m) = some s)
    (hid : TraceId.from_hex text = some id) {response : Response TracePayload}
    (h : s.get_trace text = some response) :
    Encodes id (show_rows (interned (services_shown es))
      ((arrivals es (new m) id).map NewSpan.sighting)) response := by
  rw [get_trace, hid] at h
  dsimp only at h
  cases ht : s.trace id with
  | none =>
    rw [ht] at h
    rw [← Option.some.inj h, (bare_of_run hs).absent id ht]
    rfl
  | some t =>
    rw [ht] at h
    obtain ⟨payload, hpayload, rfl⟩ := Option.map_eq_some_iff.mp h
    have hrows := rows_as_arrived hs ht
    obtain ⟨T, htable, henc⟩ := trace_payload_encoded hrows hpayload
    refine ⟨?_, ?_, henc.wellFormed htable, (henc.rows_iff htable).mpr⟩
    · -- a resident trace has a span
      rw [Ne, ← List.length_eq_zero_iff, (mapM_range_eq_some.mp hrows).1]
      exact Nat.ne_of_gt (span_count_pos hs ht)
    · rw [trace_payload_eq, hrows, Option.map_some, Option.some.injEq] at hpayload
      rw [← hpayload]
      refine (pushes_head _ _).1.trans ?_
      rw [empty_payload, trace_id_of_run hs id t ht]

/-- And of what was sent to the trace, those behind some point. -/
theorem get_trace_as_sent (hs : exec step es (new m) = some s)
    (hid : TraceId.from_hex text = some id) {response : Response TracePayload}
    (h : s.get_trace text = some response) :
    ∃ lost, (lost = 0 ∨ 0 < s.counters.evicted_traces)
      ∧ Encodes id (show_rows (interned (services_shown es))
          (((sent_to es id).drop lost).map NewSpan.sighting)) response := by
  obtain ⟨lost, hlost, hdrop⟩ := arrivals_of_sent hs id
  refine ⟨lost, hlost, ?_⟩
  rw [hdrop]
  exact get_trace_as_arrived hs hid h

/-- **What `get_attributes` answers**, below the attribute limit. -/
theorem get_attributes_as_sent (hs : exec step es (new m) = some s)
    (hsmall : attrs_sent es < 2 ^ 32) (hid : TraceId.from_hex text = some id) {idx : ℕ}
    {response : Response (List AttributeEntry)} (h : s.get_attributes text idx = some response) :
    ∃ lost, (lost = 0 ∨ 0 < s.counters.evicted_traces)
      ∧ response = show_attributes (interned (keys_shown es))
          (((sent_to es id).drop lost).map NewSpan.sighting) idx := by
  obtain ⟨lost, hlost, hdrop⟩ := arrivals_of_sent hs id
  refine ⟨lost, hlost, ?_⟩
  have hkeys : ∀ x y : NewSpan, x.sighting.key = y.sighting.key ↔ x.span_id = y.span_id :=
    fun x y => Iff.rfl
  have hbelow : AttrsBelow (new m) es := AttrsBelow.of_sent hsmall
  have hholds := holds_of_run hs hbelow
  rw [hdrop, show_attributes, lastWrites_map hkeys, List.getElem?_map]
  rw [get_attributes, hid] at h
  dsimp only at h
  cases ht : s.trace id with
  | none =>
    rw [ht] at h
    rw [← Option.some.inj h, hholds.absent id ht]
    rfl
  | some t =>
    rw [ht] at h
    dsimp only at h
    have hcount : t.span_count = (lastWrites NewSpan.span_id (arrivals es (new m) id)).length := by
      rw [Trace.span_count, (hholds.resident id t ht).columns.span_ids, List.length_map]
    by_cases hidx : idx ≥ t.span_count
    · rw [if_pos hidx] at h
      rw [List.getElem?_eq_none (hcount ▸ hidx), ← Option.some.inj h]
      rfl
    · rw [if_neg hidx] at h
      obtain ⟨last, hlast⟩ : ∃ last,
          (lastWrites NewSpan.span_id (arrivals es (new m) id))[idx]? = some last :=
        Option.isSome_iff_exists.mp (by simpa [← hcount] using Nat.lt_of_not_le hidx)
      have hshows := hholds.shows ht (hbelow.last hs ht) hlast
      rw [hshows.attribute_entries, Option.map_some, Option.some.injEq] at h
      rw [hlast, ← h]
      rfl

end Store

end Spanfall
