/-
`Payload.lean` -- what the columns of a payload say.

`get_trace` interns the strings of one trace into a table of the payload's own
while it builds the columns. Read through that table, the columns are the rows
of the trace as its accessors read them ([`Store.rows`]), and the summary of
the same trace in `list_traces` can be recomputed from them
([`payload_lossless`]). A table index is a `u32`: the columns and the table are
well formed at any size, but from the string after the first `2 ^ 32` distinct
ones on an index stands for another string.
-/
import Spanfall.Api.Discipline
import Spanfall.Store.Hex

set_option autoImplicit false

namespace Spanfall

open Lib.HashMap Lib.LastWrite Lib.Runs Lib.Vec

/-! ## Rows -/

/-- One row of a trace: its span's entry in every column, the strings resolved. -/
structure Row where
  name : String
  parent_idx : Option ℕ
  start_time_unix_nano : UInt64
  end_time_unix_nano : UInt64
  status_message : String
  status_code : Int32
  orphan : Bool
  unknown_service : Bool
  service : Option String
  deriving DecidableEq

/-- The strings of a row, in the order in which they are interned. -/
def Row.strings (self : Row) : List String :=
  self.name :: self.status_message :: self.service.toList

namespace Store

/-- A row as the trace's accessors read it. -/
def row (self : Store) (trace : Trace) (idx : ℕ) : Option Row := do
  let name ← trace.name idx
  let parent_idx ← trace.parent_idx idx
  let start_time_unix_nano ← trace.start_time_unix_nano idx
  let end_time_unix_nano ← trace.end_time_unix_nano idx
  let status_message ← trace.status_message idx
  let status_code ← trace.status_code idx
  let orphan ← trace.is_orphan idx
  let unknown_service ← trace.unknown_service idx
  let service_name_id ← trace.service_name_id idx
  let service ← service_name_id.mapM self.service_name
  return { name, parent_idx, start_time_unix_nano, end_time_unix_nano, status_message,
           status_code, orphan, unknown_service, service }

/-- All of them. -/
def rows (self : Store) (trace : Trace) : Option (List Row) :=
  (List.range trace.span_count).mapM (self.row trace)

end Store

namespace TracePayload

/-- A row as a reader of the payload decodes it, through the string table. -/
def row (self : TracePayload) (idx : ℕ) : Option Row := do
  let name ← self.string_table[(← self.name_idx[idx]?).toNat]?
  let parent_idx ← self.parent_idx[idx]?
  let start_time_unix_nano ← self.start_time_unix_nano[idx]?
  let end_time_unix_nano ← self.end_time_unix_nano[idx]?
  let status_message ← self.string_table[(← self.status_message_idx[idx]?).toNat]?
  let status_code ← self.status_code[idx]?
  let orphan ← self.orphan[idx]?
  let unknown_service ← self.unknown_service[idx]?
  let service_idx ← self.service_idx[idx]?
  let service ← service_idx.mapM fun i => self.string_table[i.toNat]?
  return { name, parent_idx, start_time_unix_nano, end_time_unix_nano, status_message,
           status_code, orphan, unknown_service, service }

/-- All of them. -/
def rows (self : TracePayload) : Option (List Row) :=
  (List.range self.name_idx.length).mapM self.row

/-- Every column has `n` entries, no string of the table is repeated, and every
index into the table is one. -/
structure WellFormed (p : TracePayload) (n : ℕ) : Prop where
  names : p.name_idx.length = n
  parents : p.parent_idx.length = n
  start_times : p.start_time_unix_nano.length = n
  end_times : p.end_time_unix_nano.length = n
  status_messages : p.status_message_idx.length = n
  status_codes : p.status_code.length = n
  orphans : p.orphan.length = n
  unknown_services : p.unknown_service.length = n
  services : p.service_idx.length = n
  table : p.string_table.Nodup
  name_lt : ∀ i ∈ p.name_idx, i.toNat < p.string_table.length
  status_message_lt : ∀ i ∈ p.status_message_idx, i.toNat < p.string_table.length
  service_lt : ∀ i, some i ∈ p.service_idx → i.toNat < p.string_table.length

end TracePayload

/-- The summary of a trace, recomputed from its rows: the latest end less the
earliest start if that is no less than zero, and the distinct services in order. -/
def summary_of_rows (id : TraceId) (rows : List Row) : TraceSummary where
  trace_id := id.to_hex
  span_count := rows.length
  duration_nanos := do
    let earliest_start ← (rows.map Row.start_time_unix_nano).min?
    let latest_end ← (rows.map Row.end_time_unix_nano).max?
    checked_sub latest_end earliest_start
  services := (rows.filterMap Row.service).eraseDups.mergeSort fun a b => decide (a ≤ b)

/-! ## The string table -/

namespace StringTable

/-- `id` is an index of the table, and stands for `s` if the table is not too
long for its indices. -/
structure Points (T : StringTable) (id : UInt32) (s : String) : Prop where
  lt : id.toNat < T.strings.length
  get : T.strings.length ≤ 2 ^ 32 → T.strings[id.toNat]? = some s

/-- The strings `ks` have been interned. -/
structure Holds (T : StringTable) (ks : List String) : Prop where
  strings : T.strings = ks.eraseDups
  known : ∀ s, (T.index.lookup s).isSome ↔ s ∈ ks
  points : ∀ s id, T.index.lookup s = some id → T.Points id s

variable {T T' : StringTable} {ks : List String} {s : String} {id : UInt32}

/-- A longer table reads its indices alike. -/
theorem Points.mono (h : T.strings <+: T'.strings) (hp : T.Points id s) : T'.Points id s := by
  obtain ⟨rest, hrest⟩ := h
  refine ⟨?_, fun hlen => ?_⟩
  · rw [← hrest, List.length_append]
    exact Nat.lt_add_right _ hp.lt
  · rw [← hrest, List.getElem?_append_left hp.lt]
    rw [← hrest, List.length_append] at hlen
    exact hp.get (by omega)

/-- Likewise where there may be none. -/
theorem points_mono_opt (h : T.strings <+: T'.strings) {id : Option UInt32} {s : Option String}
    (hp : Option.Rel T.Points id s) : Option.Rel T'.Points id s := by
  cases hp with
  | none => exact .none
  | some hp => exact .some (hp.mono h)

theorem default_holds : default.Holds [] where
  strings := by simp [default]
  known := by simp [default]
  points := by simp [default]

/-- **What one `intern` does**: the table grows at its end if at all, and the
answer is the string's index. -/
theorem intern_spec (h : T.Holds ks) (s : String) : (T.intern s).2.Holds (ks ++ [s])
    ∧ T.strings <+: (T.intern s).2.strings ∧ (T.intern s).2.Points (T.intern s).1 s := by
  unfold intern
  cases hs : T.index.lookup s with
  | some id =>
    have hin : s ∈ ks := (h.known s).mp (by rw [hs]; rfl)
    refine ⟨⟨?_, fun x => ?_, h.points⟩, List.prefix_refl _, h.points s id hs⟩
    · rw [h.strings, eraseDups_snoc, if_pos hin]
    · rw [h.known x, List.mem_append, List.mem_singleton]
      exact ⟨Or.inl, fun hx => hx.elim (fun hx => hx) fun hx => hx ▸ hin⟩
  | none =>
    have hout : s ∉ ks := fun hin => by
      have := (h.known s).mpr hin
      rw [hs] at this
      cases this
    set T' : StringTable :=
      { strings := T.strings ++ [s], index := T.index.insert s (UInt32.ofNat T.strings.length) }
      with hT'
    have hinitial : T.strings <+: T'.strings := List.prefix_append _ _
    have hlength : T'.strings.length = T.strings.length + 1 := by
      rw [hT', List.length_append, List.length_singleton]
    -- the cast truncates, but never past the end
    have hnew : T'.Points (UInt32.ofNat T.strings.length) s := by
      refine ⟨?_, fun hlen => ?_⟩
      · rw [UInt32.toNat_ofNat', hlength]
        exact Nat.lt_succ_of_le (Nat.mod_le _ _)
      · rw [UInt32.toNat_ofNat', Nat.mod_eq_of_lt (by omega)]
        exact List.getElem?_concat_length
    change T'.Holds (ks ++ [s]) ∧ T.strings <+: T'.strings
      ∧ T'.Points (UInt32.ofNat T.strings.length) s
    refine ⟨⟨?_, fun x => ?_, fun x id hx => ?_⟩, hinitial, hnew⟩
    · rw [hT', h.strings, eraseDups_snoc, if_neg hout]
    · rw [hT', lookup_insert, List.mem_append, List.mem_singleton, ← h.known x]
      by_cases hxs : x = s
      · simp [hxs]
      · rw [if_neg hxs]
        simp [hxs]
    · rw [hT', lookup_insert] at hx
      by_cases hxs : x = s
      · rw [if_pos hxs, Option.some.injEq] at hx
        rw [hxs, ← hx]
        exact hnew
      · rw [if_neg hxs] at hx
        exact (h.points x id hx).mono hinitial

/-- A string that may be missing is interned or left out. -/
theorem intern_opt_spec (h : T.Holds ks) (service : Option String) :
    let p : Option UInt32 × StringTable := match service with
      | none => (none, T)
      | some name => (some (T.intern name).1, (T.intern name).2)
    p.2.Holds (ks ++ service.toList) ∧ T.strings <+: p.2.strings ∧ Option.Rel p.2.Points p.1 service := by
  cases service with
  | none =>
    rw [Option.toList_none, List.append_nil]
    exact ⟨h, List.prefix_refl _, .none⟩
  | some name =>
    obtain ⟨hholds, hgrow, hpoint⟩ := intern_spec h name
    exact ⟨hholds, hgrow, .some hpoint⟩

end StringTable

/-! ## The columns -/

namespace Store

/-- What `push_row` does with a row, once it is read. -/
def push (acc : TracePayload × StringTable) (r : Row) : TracePayload × StringTable :=
  let (payload, table) := acc
  let (name_idx, table) := table.intern r.name
  let (status_message_idx, table) := table.intern r.status_message
  let (service_idx, table) := match r.service with
    | none => (none, table)
    | some name =>
      let (id, table) := table.intern name
      (some id, table)
  ({ payload with
      name_idx := payload.name_idx ++ [name_idx]
      parent_idx := payload.parent_idx ++ [r.parent_idx]
      start_time_unix_nano := payload.start_time_unix_nano ++ [r.start_time_unix_nano]
      end_time_unix_nano := payload.end_time_unix_nano ++ [r.end_time_unix_nano]
      status_message_idx := payload.status_message_idx ++ [status_message_idx]
      status_code := payload.status_code ++ [r.status_code]
      orphan := payload.orphan ++ [r.orphan]
      unknown_service := payload.unknown_service ++ [r.unknown_service]
      service_idx := payload.service_idx ++ [service_idx] }, table)

variable {s : Store} {t : Trace}

theorem bind_map {α β γ : Type} {o : Option α} {f : α → Option γ} {g : α → Option β} {h : β → γ}
    (hfg : ∀ x, f x = (g x).map h) : o.bind f = (o.bind g).map h := by
  cases o with
  | none => rfl
  | some x => exact hfg x

theorem push_row_eq (acc : TracePayload × StringTable) (idx : ℕ) :
    s.push_row t acc idx = (s.row t idx).map (push acc) := by
  rw [push_row, row]
  -- the same reads in the same order
  refine bind_map fun name => ?_
  refine bind_map fun parent_idx => ?_
  refine bind_map fun start_time_unix_nano => ?_
  refine bind_map fun end_time_unix_nano => ?_
  refine bind_map fun status_message => ?_
  refine bind_map fun status_code => ?_
  refine bind_map fun orphan => ?_
  refine bind_map fun unknown_service => ?_
  refine bind_map fun service_name_id => ?_
  exact bind_map fun service => rfl

/-- The loop reads the rows and pushes them. -/
theorem trace_payload_eq (s : Store) (t : Trace) : s.trace_payload t = (s.rows t).map fun rows =>
    let (payload, table) := rows.foldl push (empty_payload t, StringTable.default)
    { payload with string_table := table.strings } := by
  have hrow : s.push_row t = fun acc idx => (s.row t idx).map (push acc) := by
    funext acc idx
    exact push_row_eq acc idx
  rw [trace_payload, hrow, foldlM_map, rows]
  cases (List.range t.span_count).mapM (s.row t) with
  | none => rfl
  | some rows => rfl

/-- What the loop has built of the rows so far. -/
structure Encoded (acc : TracePayload × StringTable) (rows : List Row) : Prop where
  table : acc.2.Holds (rows.flatMap Row.strings)
  names : List.Forall₂ (fun r i => acc.2.Points i r.name) rows acc.1.name_idx
  status_messages :
    List.Forall₂ (fun r i => acc.2.Points i r.status_message) rows acc.1.status_message_idx
  services : List.Forall₂ (fun r i => Option.Rel acc.2.Points i r.service) rows acc.1.service_idx
  parents : acc.1.parent_idx = rows.map Row.parent_idx
  start_times : acc.1.start_time_unix_nano = rows.map Row.start_time_unix_nano
  end_times : acc.1.end_time_unix_nano = rows.map Row.end_time_unix_nano
  status_codes : acc.1.status_code = rows.map Row.status_code
  orphans : acc.1.orphan = rows.map Row.orphan
  unknown_services : acc.1.unknown_service = rows.map Row.unknown_service

theorem empty_encoded (t : Trace) : Encoded (empty_payload t, StringTable.default) [] where
  table := StringTable.default_holds
  names := .nil
  status_messages := .nil
  services := .nil
  parents := rfl
  start_times := rfl
  end_times := rfl
  status_codes := rfl
  orphans := rfl
  unknown_services := rfl

/-- **One turn of the loop** keeps it: the table only grows at its end, so the
indices handed out before still stand for their strings. -/
theorem push_encoded {acc : TracePayload × StringTable} {rows : List Row} (h : Encoded acc rows)
    (r : Row) : Encoded (push acc r) (rows ++ [r]) := by
  obtain ⟨payload, T⟩ := acc
  obtain ⟨hholds, hnames, hmessages, hservices, hparents, hstarts, hends, hcodes, horphans,
    hunknowns⟩ := h
  obtain ⟨hholds₁, hgrow₁, hname⟩ := StringTable.intern_spec hholds r.name
  obtain ⟨hholds₂, hgrow₂, hmessage⟩ := StringTable.intern_spec hholds₁ r.status_message
  obtain ⟨hholds₃, hgrow₃, hservice⟩ := StringTable.intern_opt_spec hholds₂ r.service
  have hgrow := (hgrow₁.trans hgrow₂).trans hgrow₃
  have hcopied : ∀ {β : Type} {f : Row → β} {column : List β}, column = rows.map f →
      column ++ [f r] = (rows ++ [r]).map f := by
    rintro β f _ rfl
    rw [List.map_append, List.map_singleton]
  constructor
  case table =>
    rw [List.flatMap_append, List.flatMap_singleton, Row.strings]
    rw [List.append_assoc, List.append_assoc] at hholds₃
    exact hholds₃
  case names =>
    exact List.rel_append (hnames.imp fun _ _ hp => hp.mono hgrow)
      (.cons (hname.mono (hgrow₂.trans hgrow₃)) .nil)
  case status_messages =>
    exact List.rel_append (hmessages.imp fun _ _ hp => hp.mono hgrow)
      (.cons (hmessage.mono hgrow₃) .nil)
  case services =>
    exact List.rel_append (hservices.imp fun _ _ hp => StringTable.points_mono_opt hgrow hp)
      (.cons hservice .nil)
  case parents => exact hcopied hparents
  case start_times => exact hcopied hstarts
  case end_times => exact hcopied hends
  case status_codes => exact hcopied hcodes
  case orphans => exact hcopied horphans
  case unknown_services => exact hcopied hunknowns

theorem pushes_encoded {acc : TracePayload × StringTable} {rows : List Row} (h : Encoded acc rows)
    (rs : List Row) : Encoded (rs.foldl push acc) (rows ++ rs) := by
  induction rs generalizing acc rows with
  | nil => rwa [List.append_nil]
  | cons r rs ih =>
    rw [List.foldl_cons, ← List.singleton_append, ← List.append_assoc]
    exact ih (push_encoded h r)

/-! ## Read back -/

/-- The payload of a trace is one that encodes its rows. -/
theorem trace_payload_encoded {payload : TracePayload} {rows : List Row}
    (hrows : s.rows t = some rows) (h : s.trace_payload t = some payload) :
    ∃ T : StringTable, payload.string_table = T.strings ∧ Encoded (payload, T) rows := by
  have henc := pushes_encoded (empty_encoded t) rows
  rw [trace_payload_eq, hrows, Option.map_some, Option.some.injEq] at h
  generalize rows.foldl push (empty_payload t, StringTable.default) = acc at henc h
  obtain ⟨p, T⟩ := acc
  obtain ⟨htable, hnames, hmessages, hservices, hparents, hstarts, hends, hcodes, horphans,
    hunknowns⟩ := henc
  rw [← h]
  -- no column is the table itself
  exact ⟨T, rfl, htable, hnames, hmessages, hservices, hparents, hstarts, hends, hcodes, horphans,
    hunknowns⟩

variable {payload : TracePayload} {T : StringTable} {rs : List Row}

/-- **The columns are well formed**, however many strings there are. -/
theorem Encoded.wellFormed (h : Encoded (payload, T) rs) (htable : payload.string_table = T.strings) :
    payload.WellFormed rs.length := by
  have hmem : ∀ {ids : List UInt32} {f : Row → String},
      List.Forall₂ (fun r i => T.Points i (f r)) rs ids →
      ∀ i ∈ ids, i.toNat < payload.string_table.length := by
    intro ids f hall i hi
    rw [htable]
    obtain ⟨r, _, hpoint⟩ := mem_of_forall₂ hall hi
    exact hpoint.lt
  constructor
  case names => exact h.names.length_eq.symm
  case parents => rw [h.parents, List.length_map]
  case start_times => rw [h.start_times, List.length_map]
  case end_times => rw [h.end_times, List.length_map]
  case status_messages => exact h.status_messages.length_eq.symm
  case status_codes => rw [h.status_codes, List.length_map]
  case orphans => rw [h.orphans, List.length_map]
  case unknown_services => rw [h.unknown_services, List.length_map]
  case services => exact h.services.length_eq.symm
  case table =>
    rw [htable, h.table.strings]
    exact nodup_eraseDups _
  case name_lt => exact hmem h.names
  case status_message_lt => exact hmem h.status_messages
  case service_lt =>
    intro i hi
    rw [htable]
    obtain ⟨r, _, hservice⟩ := mem_of_forall₂ h.services hi
    generalize r.service = service at hservice
    cases hservice with
    | some hpoint => exact hpoint.lt

theorem payload_row_eq_some {payload : TracePayload} {k : ℕ} {r : Row} :
    payload.row k = some r
      ↔ (∃ i, payload.name_idx[k]? = some i ∧ payload.string_table[i.toNat]? = some r.name)
        ∧ payload.parent_idx[k]? = some r.parent_idx
        ∧ payload.start_time_unix_nano[k]? = some r.start_time_unix_nano
        ∧ payload.end_time_unix_nano[k]? = some r.end_time_unix_nano
        ∧ (∃ i, payload.status_message_idx[k]? = some i
            ∧ payload.string_table[i.toNat]? = some r.status_message)
        ∧ payload.status_code[k]? = some r.status_code
        ∧ payload.orphan[k]? = some r.orphan
        ∧ payload.unknown_service[k]? = some r.unknown_service
        ∧ ∃ o, payload.service_idx[k]? = some o
            ∧ o.mapM (fun i => payload.string_table[i.toNat]?) = some r.service := by
  rw [TracePayload.row]
  constructor
  · intro h
    obtain ⟨i, hi, h⟩ := Option.bind_eq_some_iff.mp h
    obtain ⟨_, hname, h⟩ := Option.bind_eq_some_iff.mp h
    obtain ⟨_, hparent, h⟩ := Option.bind_eq_some_iff.mp h
    obtain ⟨_, hstart, h⟩ := Option.bind_eq_some_iff.mp h
    obtain ⟨_, hend, h⟩ := Option.bind_eq_some_iff.mp h
    obtain ⟨j, hj, h⟩ := Option.bind_eq_some_iff.mp h
    obtain ⟨_, hmessage, h⟩ := Option.bind_eq_some_iff.mp h
    obtain ⟨_, hcode, h⟩ := Option.bind_eq_some_iff.mp h
    obtain ⟨_, horphan, h⟩ := Option.bind_eq_some_iff.mp h
    obtain ⟨_, hunknown, h⟩ := Option.bind_eq_some_iff.mp h
    obtain ⟨o, ho, h⟩ := Option.bind_eq_some_iff.mp h
    obtain ⟨_, hservice, h⟩ := Option.bind_eq_some_iff.mp h
    rw [← Option.some.inj h]
    exact ⟨⟨i, hi, hname⟩, hparent, hstart, hend, ⟨j, hj, hmessage⟩, hcode, horphan, hunknown, o,
      ho, hservice⟩
  · rintro ⟨⟨i, hi, hname⟩, hparent, hstart, hend, ⟨j, hj, hmessage⟩, hcode, horphan, hunknown, o,
      ho, hservice⟩
    refine Option.bind_eq_some_iff.mpr ⟨i, hi, ?_⟩
    refine Option.bind_eq_some_iff.mpr ⟨_, hname, ?_⟩
    refine Option.bind_eq_some_iff.mpr ⟨_, hparent, ?_⟩
    refine Option.bind_eq_some_iff.mpr ⟨_, hstart, ?_⟩
    refine Option.bind_eq_some_iff.mpr ⟨_, hend, ?_⟩
    refine Option.bind_eq_some_iff.mpr ⟨j, hj, ?_⟩
    refine Option.bind_eq_some_iff.mpr ⟨_, hmessage, ?_⟩
    refine Option.bind_eq_some_iff.mpr ⟨_, hcode, ?_⟩
    refine Option.bind_eq_some_iff.mpr ⟨_, horphan, ?_⟩
    refine Option.bind_eq_some_iff.mpr ⟨_, hunknown, ?_⟩
    refine Option.bind_eq_some_iff.mpr ⟨o, ho, ?_⟩
    exact Option.bind_eq_some_iff.mpr ⟨_, hservice, rfl⟩

/-- **Every row is decoded**, while the table is not too long. -/
theorem Encoded.rows (h : Encoded (payload, T) rs) (htable : payload.string_table = T.strings)
    (hshort : T.strings.length ≤ 2 ^ 32) : payload.rows = some rs := by
  refine mapM_range_eq_some.mpr ⟨h.names.length_eq, fun k r hr => ?_⟩
  have hcopied : ∀ {β : Type} {f : Row → β} {column : List β}, column = rs.map f →
      column[k]? = some (f r) := by
    rintro β f _ rfl
    rw [List.getElem?_map, hr, Option.map_some]
  obtain ⟨i, hi, hname⟩ := exists_of_forall₂ h.names hr
  obtain ⟨j, hj, hmessage⟩ := exists_of_forall₂ h.status_messages hr
  obtain ⟨o, ho, hservice⟩ := exists_of_forall₂ h.services hr
  refine payload_row_eq_some.mpr ⟨⟨i, hi, htable ▸ hname.get hshort⟩, hcopied h.parents,
    hcopied h.start_times, hcopied h.end_times, ⟨j, hj, htable ▸ hmessage.get hshort⟩,
    hcopied h.status_codes, hcopied h.orphans, hcopied h.unknown_services, o, ho, ?_⟩
  generalize r.service = service at hservice ⊢
  cases hservice with
  | none => rfl
  | some hpoint =>
    rw [Option.mapM_some, htable, hpoint.get hshort]
    rfl

/-- **No payload decodes to more strings than there are indices.** -/
theorem strings_of_decoded (h : payload.rows = some rs) :
    (rs.flatMap Row.strings).toFinset.card ≤ 2 ^ 32 := by
  have hall := (mapM_range_eq_some.mp h).2
  have htable : ∀ (i : UInt32) (x : String), payload.string_table[i.toNat]? = some x →
      x ∈ payload.string_table.take (2 ^ 32) := by
    intro i x hx
    have hi : (payload.string_table.take (2 ^ 32))[i.toNat]? = some x := by
      rw [List.getElem?_take_of_lt i.toNat_lt, hx]
    exact List.mem_of_getElem? hi
  have hsubset : (rs.flatMap Row.strings).toFinset
      ⊆ (payload.string_table.take (2 ^ 32)).toFinset := by
    intro x hx
    rw [List.mem_toFinset] at hx ⊢
    obtain ⟨r, hr, hx⟩ := List.mem_flatMap.mp hx
    obtain ⟨k, hk⟩ := List.mem_iff_getElem?.mp hr
    obtain ⟨⟨i, _, hname⟩, _, _, _, ⟨j, _, hmessage⟩, _, _, _, o, _, hservice⟩ :=
      payload_row_eq_some.mp (hall k r hk)
    rw [Row.strings, List.mem_cons, List.mem_cons, Option.mem_toList] at hx
    obtain rfl | rfl | hx := hx
    · exact htable i _ hname
    · exact htable j _ hmessage
    · cases o with
      | none =>
        rw [Option.mapM_none, Option.pure_def, Option.some.injEq] at hservice
        rw [← hservice] at hx
        cases hx
      | some i =>
        rw [hx, Option.mapM_some] at hservice
        obtain ⟨y, hy, hxy⟩ := Option.map_eq_some_iff.mp hservice
        rw [← Option.some.inj hxy]
        exact htable i y hy
  calc (rs.flatMap Row.strings).toFinset.card
      ≤ (payload.string_table.take (2 ^ 32)).toFinset.card := Finset.card_le_card hsubset
    _ ≤ (payload.string_table.take (2 ^ 32)).length := List.toFinset_card_le _
    _ ≤ 2 ^ 32 := List.length_take_le _ _

/-- **The columns read back as the rows** exactly when their strings have an
index each. -/
theorem Encoded.rows_iff (h : Encoded (payload, T) rs) (htable : payload.string_table = T.strings) :
    payload.rows = some rs ↔ (rs.flatMap Row.strings).toFinset.card ≤ 2 ^ 32 := by
  refine ⟨strings_of_decoded, fun hshort => h.rows htable ?_⟩
  have hset : (rs.flatMap Row.strings).toFinset = (rs.flatMap Row.strings).eraseDups.toFinset := by
    ext x
    rw [List.mem_toFinset, List.mem_toFinset, List.mem_eraseDups]
  rw [h.table.strings, ← List.toFinset_card_of_nodup (nodup_eraseDups _), ← hset]
  exact hshort

/-! ## The list of traces -/

theorem rows_bare {s' : Store} {t' : Trace} (h : s'.service_name = s.service_name)
    (ht : t'.bare = t.bare) : s'.rows t' = s.rows t := by
  have hrow : s'.row t'.bare = s.row t.bare := by
    funext idx
    rw [row, row, h, ht]
  change (List.range t'.bare.span_count).mapM (s'.row t'.bare)
    = (List.range t.bare.span_count).mapM (s.row t.bare)
  rw [hrow, ht]

theorem row_eq_some {k : ℕ} {r : Row} (h : s.row t k = some r) :
    t.name k = some r.name ∧ t.start_time_unix_nano k = some r.start_time_unix_nano
      ∧ t.end_time_unix_nano k = some r.end_time_unix_nano
      ∧ ∃ service_id, t.service_name_id k = some service_id
          ∧ service_id.mapM s.service_name = some r.service := by
  rw [row] at h
  obtain ⟨_, hname, h⟩ := Option.bind_eq_some_iff.mp h
  obtain ⟨_, _, h⟩ := Option.bind_eq_some_iff.mp h
  obtain ⟨_, hstart, h⟩ := Option.bind_eq_some_iff.mp h
  obtain ⟨_, hend, h⟩ := Option.bind_eq_some_iff.mp h
  obtain ⟨_, _, h⟩ := Option.bind_eq_some_iff.mp h
  obtain ⟨_, _, h⟩ := Option.bind_eq_some_iff.mp h
  obtain ⟨_, _, h⟩ := Option.bind_eq_some_iff.mp h
  obtain ⟨_, _, h⟩ := Option.bind_eq_some_iff.mp h
  obtain ⟨service_id, hid, h⟩ := Option.bind_eq_some_iff.mp h
  obtain ⟨_, hservice, h⟩ := Option.bind_eq_some_iff.mp h
  rw [← Option.some.inj h]
  exact ⟨hname, hstart, hend, service_id, hid, hservice⟩

theorem rows_of_payload {payload : TracePayload} (h : s.trace_payload t = some payload) :
    ∃ rows, s.rows t = some rows := by
  rw [trace_payload_eq, Option.map_eq_some_iff] at h
  obtain ⟨rows, hrows, _⟩ := h
  exact ⟨rows, hrows⟩

/-- The elements of a `BTreeSet` are the distinct ones, sorted. -/
theorem sort_toFinset (names : List String) : names.toFinset.sort (· ≤ ·)
    = names.eraseDups.mergeSort fun a b => decide (a ≤ b) := by
  have hperm := List.mergeSort_perm names.eraseDups fun a b => decide (a ≤ b)
  have hset : (names.eraseDups.mergeSort fun a b => decide (a ≤ b)).toFinset = names.toFinset := by
    ext name
    rw [List.mem_toFinset, hperm.mem_iff, List.mem_eraseDups, List.mem_toFinset]
  rw [← hset]
  exact (List.toFinset_sort _ (hperm.nodup_iff.mpr (nodup_eraseDups names))).mpr
    (List.pairwise_mergeSort' _ _)

/-- **A summary says of a trace what its rows say.** -/
theorem summarize_rows (h : InRange s t) (hrows : s.rows t = some rs) (id : TraceId) :
    s.summarize id t = some (summary_of_rows id rs) := by
  obtain ⟨hlen, hall⟩ := mapM_range_eq_some.mp hrows
  have hnames : (List.range t.span_count).mapM (fun idx => do
      let service_id ← t.service_name_id idx
      service_id.mapM s.service_name) = some (rs.map Row.service) := by
    refine mapM_range_of_getElem? hlen fun k r hr => ?_
    obtain ⟨_, _, _, service_id, hid, hservice⟩ := row_eq_some (hall k r hr)
    rw [hid]
    exact hservice
  have hstarts : t.start_times_unix_nano = rs.map Row.start_time_unix_nano :=
    eq_map_of_getElem? (h.start_times.trans hlen.symm) fun k r hr =>
      (row_eq_some (hall k r hr)).2.1
  have hends : t.end_times_unix_nano = rs.map Row.end_time_unix_nano :=
    eq_map_of_getElem? (h.end_times.trans hlen.symm) fun k r hr =>
      (row_eq_some (hall k r hr)).2.2.1
  rw [summarize, trace_services, hnames, Trace.duration_nanos, hstarts, hends, ← hlen]
  simp only [Option.bind_eq_bind, Option.bind_some, Option.pure_def, List.filterMap_map,
    sort_toFinset]
  rfl

/-! ## The state of a run -/

variable {m : ℕ} {es : List Event} {id : TraceId}

/-- **The payload is lossless, and the list agrees with it.** In every store
that a run leaves, for every resident trace: `get_trace` answers with columns
and a table that are well formed; the summary in `list_traces` is the one
recomputed from the trace's rows, and no other entry is of the trace; and the
payload decodes to those rows exactly when their distinct strings are at most
`2 ^ 32`. -/
theorem payload_lossless (hs : exec step es (new m) = some s) (ht : s.trace id = some t) :
    ∃ payload rows, (∀ text, TraceId.from_hex text = some id →
          s.get_trace text = some (.ok payload))
      ∧ s.rows t = some rows
      ∧ payload.WellFormed t.span_count
      ∧ (∀ order, ∃ l, s.list_traces order = some l ∧ summary_of_rows id rows ∈ l
          ∧ ∀ e ∈ l, e.trace_id = id.to_hex → e = summary_of_rows id rows)
      ∧ (payload.rows = some rows ↔ (rows.flatMap Row.strings).toFinset.card ≤ 2 ^ 32) := by
  -- attributes are not read, so the trace may be taken without them
  obtain ⟨u, hu, hin⟩ := bare_in_range hs ht
  have hservice : s.forget_keys.service_name = s.service_name := rfl
  have hrows_eq : s.forget_keys.rows u = s.rows t := rows_bare hservice hu
  have hpayload_eq : s.forget_keys.trace_payload u = s.trace_payload t :=
    trace_payload_bare hservice hu
  obtain ⟨payload, hpayload⟩ := Option.isSome_iff_exists.mp hin.trace_payload_isSome
  rw [hpayload_eq] at hpayload
  obtain ⟨rows, hrows⟩ := rows_of_payload hpayload
  have hsummary : s.summarize id t = some (summary_of_rows id rows) := by
    rw [← summarize_bare hservice id hu]
    exact summarize_rows hin (hrows_eq.trans hrows) id
  obtain ⟨T, htable, henc⟩ := trace_payload_encoded hrows hpayload
  refine ⟨payload, rows, fun text htext => get_trace_of_trace htext ht hpayload, hrows, ?_,
    fun order => ?_, henc.rows_iff htable⟩
  · rw [← (mapM_range_eq_some.mp hrows).1]
    exact henc.wellFormed htable
  · obtain ⟨l, hl⟩ := Option.isSome_iff_exists.mp ((traces_answered hs).2 order)
    refine ⟨l, hl, (mem_of_mapM hl).mpr ⟨⟨id, t⟩, order.mem_iter_lookup.mpr ht, hsummary⟩,
      fun e he hid => ?_⟩
    -- an entry under this id is of this trace
    obtain ⟨⟨id', t'⟩, hmem, he⟩ := (mem_of_mapM hl).mp he
    obtain rfl : id' = id := TraceId.to_hex_injective ((summarize_trace_id he).symm.trans hid)
    have ht' : s.trace id' = some t' := order.mem_iter_lookup.mp hmem
    obtain rfl : t' = t := Option.some.inj (ht'.symm.trans ht)
    exact Option.some.inj (he.symm.trans hsummary)

/-- Two spans, one of them with a service. -/
theorem payload_lossless_described :
    ∃ s t payload rows, exec step described (new 10000) = some s ∧ s.trace (tid 1) = some t
      ∧ s.get_trace (tid 1).to_hex = some (.ok payload) ∧ s.rows t = some rows
      ∧ payload.WellFormed t.span_count := by
  have hs := (Option.some_get described_runs).symm
  have htrace : (((exec step described (new 10000)).get described_runs).trace (tid 1)).isSome := by
    decide +kernel
  obtain ⟨payload, rows, hget, hrows, hwell, _⟩ :=
    payload_lossless hs (Option.some_get htrace).symm
  exact ⟨_, _, payload, rows, hs, (Option.some_get htrace).symm, hget _ (by decide +kernel), hrows,
    hwell⟩

/-! ## Past the limit -/

/-- The `n`-th span of a trace in which no two have a name in common. -/
def named_span (n : ℕ) : NewSpan :=
  { Trace.span 1 none (nth_id n).to_hex with span_id := nth_span_id n }

/-- The first `N` of them. -/
def crowd (N : ℕ) : List Event :=
  ((List.range N).map fun n => (tid 1, named_span n)).map fun p => .insert p.1 p.2 0

/-- They all come into the one trace, in order. -/
theorem crowd_run {N : ℕ} (hN : N ≤ 2 ^ 64) (hpos : 0 < N) :
    ∃ s t, exec step (crowd N) (new 0) = some s ∧ s.trace (tid 1) = some t
      ∧ InRange s t ∧ t.names = (List.range N).map fun n => (nth_id n).to_hex := by
  have hnone : attrs_sent (crowd N) = 0 := by
    rw [attrs_sent, keys_shown, crowd, List.map_map, List.flatMap_map]
    simp [Event.keys, named_span, Trace.span]
  have hbelow : AttrsBelow (new 0) (crowd N) := AttrsBelow.of_sent (by rw [hnone]; decide)
  obtain ⟨s, hs, hh⟩ := run_holds 0 _ hbelow
  obtain ⟨t, ht, _⟩ := (inserts_trace hs (tid 1)).2.1
    ⟨(tid 1, named_span 0), List.mem_map_of_mem (List.mem_range.mpr hpos), rfl⟩
  refine ⟨s, t, hs, ht, hh.in_range ht (hbelow.last hs ht), ?_⟩
  have harrived : arrivals (crowd N) (new 0) (tid 1) = (List.range N).map named_span := by
    rw [arrivals, crowd, ghost_inserts hs, List.nil_append, List.filter_eq_self.mpr, List.map_map]
    · rfl
    · intro p hp
      obtain ⟨n, _, rfl⟩ := List.mem_map.mp hp
      exact decide_eq_true rfl
  have hnodup : (((List.range N).map named_span).map NewSpan.span_id).Nodup := by
    rw [List.map_map]
    refine List.nodup_range.map_on fun n hn k hk h => nth_span_id_injective ?_ ?_ h
    · exact (List.mem_range.mp hn).trans_le hN
    · exact (List.mem_range.mp hk).trans_le hN
  rw [(hh.resident _ t ht).columns.names, harrived, lastWrites_of_nodup hnodup, List.map_map]
  rfl

/-- With more than `2 ^ 32` names a payload is not what the trace is. -/
theorem payload_past_the_limit :
    ∃ s t payload rows, exec step (crowd (2 ^ 32 + 1)) (new 0) = some s
      ∧ s.trace (tid 1) = some t ∧ s.get_trace (tid 1).to_hex = some (.ok payload)
      ∧ s.rows t = some rows ∧ payload.rows ≠ some rows := by
  obtain ⟨N, hN⟩ : ∃ N, N = 2 ^ 32 + 1 := ⟨_, rfl⟩
  rw [← hN]
  obtain ⟨s, t, hs, ht, hin, hnames⟩ := crowd_run (N := N) (by omega) (by omega)
  obtain ⟨payload, hpayload⟩ := Option.isSome_iff_exists.mp hin.trace_payload_isSome
  obtain ⟨rows, hrows⟩ := rows_of_payload hpayload
  refine ⟨s, t, payload, rows, hs, ht,
    get_trace_of_trace (TraceId.from_hex_to_hex _) ht hpayload, hrows, fun hdecoded => ?_⟩
  obtain ⟨hlen, hall⟩ := mapM_range_eq_some.mp hrows
  have hcolumn : t.names = rows.map Row.name :=
    eq_map_of_getElem? (hin.names.trans hlen.symm) fun k r hr => (row_eq_some (hall k r hr)).1
  have hcard : ((List.range N).map fun n => (nth_id n).to_hex).toFinset.card = N := by
    rw [List.toFinset_card_of_nodup, List.length_map, List.length_range]
    refine List.nodup_range.map_on fun n hn k hk h =>
      nth_id_injective ?_ ?_ (TraceId.to_hex_injective h)
    · have := List.mem_range.mp hn
      omega
    · have := List.mem_range.mp hk
      omega
  have hsubset : ((List.range N).map fun n => (nth_id n).to_hex).toFinset
      ⊆ (rows.flatMap Row.strings).toFinset := by
    intro x hx
    rw [← hnames, hcolumn, List.mem_toFinset, List.mem_map] at hx
    obtain ⟨r, hr, rfl⟩ := hx
    rw [List.mem_toFinset]
    exact List.mem_flatMap.mpr ⟨r, hr, List.mem_cons_self⟩
  -- more names than a decoded payload can have strings
  have hle := (Finset.card_le_card hsubset).trans (strings_of_decoded hdecoded)
  rw [hcard] at hle
  omega

end Store

end Spanfall
