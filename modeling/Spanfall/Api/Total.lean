/-
`Total.lean` -- no stored data and no request makes the store or the Read API
panic.

A panic is `none` in this model, and there are two kinds of it. The positions
that are stored in a trace, or computed from stored ones, are the trace's own
business: [`InRange`] says of each that it is in range, every reachable trace
has it ([`Holds.in_range`]), and the handlers need nothing else. The byte
offsets that `parse_term` slices its text at depend on the request alone:
[`parse_term_sliced`] is the function with the slices the source makes, and no
text makes one of them miss a character boundary.
-/
import Mathlib.Data.List.TakeWhile
import Spanfall.Lib.Utf8
import Spanfall.Api.Attributes
import Spanfall.Api.Tokens
import Spanfall.Store.Parents
import Spanfall.Store.Refine

set_option autoImplicit false

namespace Spanfall

open Lib.Vec Lib.Csr Lib.Utf8 Lib.HashMap Lib.LastWrite Lib.Runs

/-! ## The positions a trace stores -/

/-- Every index, offset and interned id that `t` stores is in range. -/
structure InRange (s : Store) (t : Trace) : Prop where
  names : t.names.length = t.span_count
  parent_idxs : t.parent_idxs.length = t.span_count
  start_times : t.start_times_unix_nano.length = t.span_count
  end_times : t.end_times_unix_nano.length = t.span_count
  status_messages : t.status_messages.length = t.span_count
  status_codes : t.status_codes.length = t.span_count
  orphans : t.orphans.length = t.span_count
  unknown_services : t.unknown_services.length = t.span_count
  service_name_ids : t.service_name_ids.length = t.span_count
  attr_offsets : t.attr_offsets.length = t.span_count + 1
  attr_values : t.attr_values.length = t.attr_keys.length
  /-- The range that `attributes` slices and `overwrite_at` splices. -/
  slices : ∀ (i : ℕ) (start stop : UInt32), t.attr_offsets[i]? = some start →
    t.attr_offsets[i + 1]? = some stop →
    start.toNat ≤ stop.toNat ∧ stop.toNat ≤ t.attr_keys.length
  /-- The offset that `overwrite_at` writes, whatever the new attributes. -/
  shift : ∀ (i j : ℕ) (start stop off : UInt32) (new_len : ℕ), i < j →
    t.attr_offsets[i]? = some start → t.attr_offsets[i + 1]? = some stop →
    t.attr_offsets[j]? = some off →
    0 ≤ (off.toNat : ℤ) + ((new_len : ℤ) - ((stop.toNat - start.toNat : ℕ) : ℤ))
  parents : ∀ i p, t.parent_idx i = some (some p) → p < t.span_count
  index : ∀ id i, t.span_index.lookup id = some i → i < t.span_count
  pending : ∀ q l, t.pending_children.lookup q = some l → ∀ i ∈ l, i < t.span_count
  key_ids : ∀ id ∈ t.attr_keys, (s.attribute_key id).isSome
  service_ids : ∀ id, some id ∈ t.service_name_ids → (s.service_name id).isSome

/-- The offsets of a trace that is small enough are those of its rows, and
they only grow. -/
theorem Columns.offset_le {t : Trace} {key svc : Interner} {R : List NewSpan}
    (h : Columns t key svc R) (hsmall : t.attr_keys.length < 2 ^ 32) {i j : ℕ} {a b : UInt32}
    (hij : i ≤ j) (ha : t.attr_offsets[i]? = some a) (hb : t.attr_offsets[j]? = some b) :
    a.toNat ≤ b.toNat ∧ b.toNat ≤ t.attr_keys.length := by
  have hlen : t.attr_offsets.length = R.length + 1 := by
    rw [h.attr_offsets, List.length_map, offsets_length, attr_rows, List.length_map]
  have hj := (List.getElem?_eq_some_iff.mp hb).1
  obtain ⟨a', ha', hoff_a⟩ := h.attr_offset_of_lt (h.offset_lt hsmall i) (by omega)
  obtain ⟨b', hb', hoff_b⟩ := h.attr_offset_of_lt (h.offset_lt hsmall j) (by omega)
  obtain rfl : a = a' := Option.some.inj (ha.symm.trans ha')
  obtain rfl : b = b' := Option.some.inj (hb.symm.trans hb')
  rw [hoff_a, hoff_b, h.attr_keys_length]
  exact ⟨offset_mono _ hij, offset_le_flatten _ _⟩

/-- **A trace that holds what it was sent is in range**, if it is below the
attribute limit and the interners are sound. -/
theorem Trace.Holds.in_range {s : Store} {ks ss : List String} {t : Trace}
    {arrived : List NewSpan} (h : t.Holds s.key_interner s.service_interner arrived)
    (hkeys : s.key_interner.Holds ks) (hservices : s.service_interner.Holds ss)
    (hsmall : t.attr_keys.length < 2 ^ 32) : InRange s t := by
  obtain ⟨c, l⟩ := h
  have hrows : t.span_count = (lastWrites NewSpan.span_id arrived).length := by
    rw [Trace.span_count, c.span_ids, List.length_map]
  have hfirst : t.span_count = (firsts arrived).length := by
    rw [Trace.span_count, l.length_eq]
  have hat : ∀ {i : ℕ} {q : SpanId}, t.span_ids[i]? = some q → i < t.span_count := fun hi =>
    (List.getElem?_eq_some_iff.mp hi).1
  constructor
  case names => rw [c.names, List.length_map, hrows]
  case parent_idxs => rw [l.parents, List.length_map, hfirst]
  case start_times => rw [c.start_times, List.length_map, hrows]
  case end_times => rw [c.end_times, List.length_map, hrows]
  case status_messages => rw [c.status_messages, List.length_map, hrows]
  case status_codes => rw [c.status_codes, List.length_map, hrows]
  case orphans => rw [l.orphans, List.length_map, hfirst]
  case unknown_services => rw [c.unknown_services, List.length_map, hrows]
  case service_name_ids => rw [c.service_name_ids, List.length_map, hrows]
  case attr_offsets =>
    rw [c.attr_offsets, List.length_map, offsets_length, attr_rows, List.length_map, hrows]
  case attr_values =>
    rw [c.attr_values, c.attr_keys, ← List.map_flatten, ← List.map_flatten, List.length_map,
      List.length_map]
  case slices =>
    intro i start stop hstart hstop
    exact c.offset_le hsmall (Nat.le_succ i) hstart hstop
  case shift =>
    intro i j start stop off new_len hij hstart hstop hoff
    -- a later offset is no less than the end of the row that is cut out
    have hle := (c.offset_le hsmall (Nat.succ_le_of_lt hij) hstop hoff).1
    omega
  case parents =>
    intro i p hp
    rw [Trace.parent_idx, l.parents, List.getElem?_map] at hp
    obtain ⟨r, _, hr⟩ := Option.map_eq_some_iff.mp hp
    obtain ⟨q, _, hq⟩ := Option.bind_eq_some_iff.mp hr
    exact hat ((l.index q p).mp hq)
  case index =>
    intro id i hi
    exact hat ((l.index id i).mp hi)
  case pending =>
    intro q waiters hq i hi
    obtain ⟨rfl, _, _⟩ := l.pending_spec.mp hq
    rw [hfirst]
    exact waiting_lt hi
  case key_ids =>
    intro key hkey
    rw [c.attr_keys, ← List.map_flatten] at hkey
    obtain ⟨kv, hkv, rfl⟩ := List.mem_map.mp hkey
    obtain ⟨row, hrow, hkv⟩ := List.mem_flatten.mp hkv
    obtain ⟨r, _, rfl⟩ := List.mem_map.mp hrow
    obtain ⟨attr, _, hattr⟩ := List.mem_filterMap.mp hkv
    obtain ⟨id, hid, rfl⟩ := Option.map_eq_some_iff.mp hattr
    rw [Store.attribute_key, hkeys.get_of_lookup hid]
    rfl
  case service_ids =>
    intro service hservice
    rw [c.service_name_ids] at hservice
    obtain ⟨r, _, hr⟩ := List.mem_map.mp hservice
    obtain ⟨name, _, hname⟩ := Option.bind_eq_some_iff.mp hr
    rw [Store.service_name, hservices.get_of_lookup hname]
    rfl

/-- So a resident trace is. -/
theorem Store.Holds.in_range {s : Store} {ks ss : List String} {arrived : TraceId → List NewSpan}
    (h : s.Holds ks ss arrived) {id : TraceId} {t : Trace} (ht : s.trace id = some t)
    (hsmall : t.attr_keys.length < 2 ^ 32) : InRange s t :=
  (h.resident id t ht).in_range h.key h.service hsmall

/-! ## The handlers -/

namespace InRange

variable {s : Store} {t : Trace} {i : ℕ}

theorem service_isSome (h : InRange s t) (hi : i < t.span_count) :
    ∃ service_id, t.service_name_id i = some service_id
      ∧ (service_id.mapM s.service_name).isSome := by
  have hlt : i < t.service_name_ids.length := by
    rw [h.service_name_ids]
    exact hi
  refine ⟨t.service_name_ids[i], List.getElem?_eq_getElem hlt, ?_⟩
  cases hid : t.service_name_ids[i] with
  | none => rfl
  | some id =>
    obtain ⟨name, hname⟩ := Option.isSome_iff_exists.mp
      (h.service_ids id (hid ▸ List.getElem_mem hlt))
    rw [Option.mapM_some, hname]
    rfl

/-- Both slices of one row go through. -/
theorem attributes_isSome (h : InRange s t) (hi : i < t.span_count) :
    ∃ keys values, t.attribute_keys i = some keys ∧ t.attributes i = some values
      ∧ ∀ key ∈ keys, key ∈ t.attr_keys := by
  have hlen := h.attr_offsets
  have hstart : i < t.attr_offsets.length := by omega
  have hstop : i + 1 < t.attr_offsets.length := by omega
  obtain ⟨start, hstart⟩ : ∃ start, t.attr_offsets[i]? = some start :=
    ⟨_, List.getElem?_eq_getElem hstart⟩
  obtain ⟨stop, hstop⟩ : ∃ stop, t.attr_offsets[i + 1]? = some stop :=
    ⟨_, List.getElem?_eq_getElem hstop⟩
  obtain ⟨hle, hin⟩ := h.slices i start stop hstart hstop
  have hin' : stop.toNat ≤ t.attr_values.length := by
    rw [h.attr_values]
    exact hin
  refine ⟨(t.attr_keys.take stop.toNat).drop start.toNat,
    (t.attr_values.take stop.toNat).drop start.toNat, ?_, ?_,
    fun key hkey => List.mem_of_mem_take (List.mem_of_mem_drop hkey)⟩
  · rw [Trace.attribute_keys, hstart, hstop]
    exact slice_eq_some.mpr ⟨⟨hle, hin⟩, rfl⟩
  · rw [Trace.attributes, hstart, hstop]
    exact slice_eq_some.mpr ⟨⟨hle, hin'⟩, rfl⟩

theorem summarize_isSome (h : InRange s t) (id : TraceId) : (s.summarize id t).isSome := by
  obtain ⟨names, hnames⟩ : ∃ names, (List.range t.span_count).mapM (fun idx => do
      let service_id ← t.service_name_id idx
      service_id.mapM s.service_name) = some names := by
    refine Option.isSome_iff_exists.mp (mapM_isSome fun i hi => ?_)
    obtain ⟨service_id, hid, hname⟩ := h.service_isSome (List.mem_range.mp hi)
    rw [hid]
    exact hname
  rw [Store.summarize, Store.trace_services, hnames]
  rfl

theorem trace_payload_isSome (h : InRange s t) : (s.trace_payload t).isSome := by
  have hrow : ∀ acc, ∀ i ∈ List.range t.span_count, (s.push_row t acc i).isSome := by
    intro acc i hi
    rw [List.mem_range] at hi
    -- one column after the other, in the order of the reads
    have hname : i < t.names.length := by rw [h.names]; exact hi
    have hparent : i < t.parent_idxs.length := by rw [h.parent_idxs]; exact hi
    have hstart : i < t.start_times_unix_nano.length := by rw [h.start_times]; exact hi
    have hend : i < t.end_times_unix_nano.length := by rw [h.end_times]; exact hi
    have hmessage : i < t.status_messages.length := by rw [h.status_messages]; exact hi
    have hcode : i < t.status_codes.length := by rw [h.status_codes]; exact hi
    have horphan : i < t.orphans.length := by rw [h.orphans]; exact hi
    have hunknown : i < t.unknown_services.length := by rw [h.unknown_services]; exact hi
    obtain ⟨service_id, hid, hservice⟩ := h.service_isSome hi
    obtain ⟨service, hservice⟩ := Option.isSome_iff_exists.mp hservice
    simp only [Store.push_row, Trace.name, Trace.parent_idx, Trace.start_time_unix_nano,
      Trace.end_time_unix_nano, Trace.status_message, Trace.status_code, Trace.is_orphan,
      Trace.unknown_service, List.getElem?_eq_getElem hname, List.getElem?_eq_getElem hparent,
      List.getElem?_eq_getElem hstart, List.getElem?_eq_getElem hend,
      List.getElem?_eq_getElem hmessage, List.getElem?_eq_getElem hcode,
      List.getElem?_eq_getElem horphan, List.getElem?_eq_getElem hunknown, hid, hservice,
      Option.bind_eq_bind, Option.bind_some, Option.pure_def, Option.isSome_some]
  obtain ⟨p, hp⟩ := Option.isSome_iff_exists.mp
    (foldlM_isSome hrow (Store.empty_payload t, StringTable.default))
  rw [Store.trace_payload, hp]
  rfl

theorem attribute_entries_isSome (h : InRange s t) (hi : i < t.span_count) :
    (s.attribute_entries t i).isSome := by
  obtain ⟨keys, values, hkeys, hvalues, hmem⟩ := h.attributes_isSome hi
  rw [Store.attribute_entries, hkeys, hvalues]
  refine mapM_isSome fun kv hkv => ?_
  obtain ⟨key, hkey⟩ := Option.isSome_iff_exists.mp
    (h.key_ids kv.1 (hmem kv.1 (List.of_mem_zip hkv).1))
  rw [hkey]
  rfl

theorem matches_isSome (h : InRange s t) (hi : i < t.span_count) (term : Term) :
    (term.matches t s i).isSome := by
  have hcode : i < t.status_codes.length := by rw [h.status_codes]; exact hi
  have hstart : i < t.start_times_unix_nano.length := by rw [h.start_times]; exact hi
  have hend : i < t.end_times_unix_nano.length := by rw [h.end_times]; exact hi
  have hname : i < t.names.length := by rw [h.names]; exact hi
  obtain ⟨keys, values, hkeys, hvalues, _⟩ := h.attributes_isSome hi
  cases term with
  | service op want =>
    obtain ⟨service_id, hid, hservice⟩ := h.service_isSome hi
    obtain ⟨service, hservice⟩ := Option.isSome_iff_exists.mp hservice
    simp only [Term.matches, hid, hservice, Option.bind_eq_bind, Option.bind_some,
      Option.pure_def, Option.isSome_some]
  | status op want =>
    simp only [Term.matches, Trace.status_code, List.getElem?_eq_getElem hcode]
    cases op <;> rfl
  | duration op want =>
    simp only [Term.matches, Trace.end_time_unix_nano, Trace.start_time_unix_nano,
      List.getElem?_eq_getElem hstart, List.getElem?_eq_getElem hend, Option.bind_eq_bind,
      Option.bind_some, Option.pure_def, Option.isSome_some]
  | attr op key_id raw =>
    cases key_id with
    | none => rfl
    | some key_id =>
      simp only [Term.matches, hkeys, hvalues, Option.bind_eq_bind, Option.bind_some,
        Option.pure_def, Option.isSome_some]
  | substring needle =>
    simp only [Term.matches, Trace.name, List.getElem?_eq_getElem hname, hvalues,
      Option.bind_eq_bind, Option.bind_some, Option.pure_def]
    by_cases hin : str_contains t.names[i] needle
    · rw [if_pos hin]
      rfl
    · rw [if_neg hin]
      rfl

theorem matching_indices_isSome (h : InRange s t) (terms : List Term) {idxs : List ℕ}
    (hidxs : ∀ i ∈ idxs, i < t.span_count) : (matching_indices terms t s idxs).isSome := by
  induction idxs with
  | nil => rfl
  | cons i idxs ih =>
    obtain ⟨hit, hhit⟩ := Option.isSome_iff_exists.mp
      (allM_isSome (v := terms) fun term _ =>
        h.matches_isSome (hidxs i List.mem_cons_self) term)
    obtain ⟨rest, hrest⟩ := Option.isSome_iff_exists.mp
      (ih fun j hj => hidxs j (List.mem_cons_of_mem _ hj))
    rw [matching_indices, hhit, hrest]
    rfl

theorem filter_trace_isSome (h : InRange s t) (query : String) :
    (s.filter_trace t query).isSome := by
  obtain ⟨indices, hindices⟩ := Option.isSome_iff_exists.mp
    (h.matching_indices_isSome (parse_query query s).1 fun _ hi => List.mem_range.mp hi)
  rw [Store.filter_trace_eq, hindices]
  rfl

end InRange

namespace Store

variable {s : Store}

theorem list_traces_isSome (h : ∀ id t, s.trace id = some t → InRange s t) (order : TraceOrder) :
    (s.list_traces order).isSome := by
  refine mapM_isSome fun e he => ?_
  exact (h e.1 e.2 (order.mem_iter_lookup.mp he)).summarize_isSome e.1

theorem get_trace_isSome (h : ∀ id t, s.trace id = some t → InRange s t) (id : String) :
    (s.get_trace id).isSome := by
  unfold get_trace
  cases TraceId.from_hex id with
  | none => rfl
  | some trace_id =>
    dsimp only
    cases ht : s.trace trace_id with
    | none => rfl
    | some t =>
      dsimp only
      rw [Option.isSome_map]
      exact (h trace_id t ht).trace_payload_isSome

theorem get_attributes_isSome (h : ∀ id t, s.trace id = some t → InRange s t) (id : String)
    (idx : ℕ) : (s.get_attributes id idx).isSome := by
  unfold get_attributes
  cases TraceId.from_hex id with
  | none => rfl
  | some trace_id =>
    dsimp only
    cases ht : s.trace trace_id with
    | none => rfl
    | some t =>
      dsimp only
      by_cases hidx : idx ≥ t.span_count
      · rw [if_pos hidx]
        rfl
      · rw [if_neg hidx, Option.isSome_map]
        exact (h trace_id t ht).attribute_entries_isSome (Nat.lt_of_not_le hidx)

theorem get_filter_isSome (h : ∀ id t, s.trace id = some t → InRange s t) (id : String)
    (q : Option String) : (s.get_filter id q).isSome := by
  unfold get_filter
  cases TraceId.from_hex id with
  | none => rfl
  | some trace_id =>
    dsimp only
    cases ht : s.trace trace_id with
    | none => rfl
    | some t =>
      dsimp only
      rw [Option.isSome_map]
      exact (h trace_id t ht).filter_trace_isSome (q.getD "")

end Store

/-! ## The slices of a term -/

/-- `parse_term` with its slices: the key's end is counted in characters and
used as a byte offset, and the operator is cut off by its length in bytes. -/
def parse_term_sliced (text : String) (starts_quoted : Bool) (store : Store) :
    Option (Except String Term) :=
  if starts_quoted then some (.ok (.substring text))
  else do
    let cs := text.toList
    let key_len := (cs.takeWhile is_key_char).length
    let key_len := if cs.head?.any is_key_start then key_len else 0
    if key_len = 0 then return .ok (.substring text)
    else
      let (key, rest) ← cut cs key_len
      if rest = [] then return .ok (.substring text)
      else
        match OPS.find? fun p => decide (p.1.toList <+: rest) with
        | some (lit, op) =>
          let (_, value) ← cut rest (byte_length lit.toList)
          return parse_key_term store text (String.ofList key) op (String.ofList value)
        | none =>
          if rest.head? = some '!' ∨ rest.head? = some '~' then return .error text
          else return .ok (.substring text)

/-- A key is ASCII, so its length in characters is its length in bytes. -/
theorem cut_key (cs : List Char) :
    cut cs (cs.takeWhile is_key_char).length
      = some (cs.takeWhile is_key_char, cs.drop (cs.takeWhile is_key_char).length) := by
  have hlen : byte_length (cs.takeWhile is_key_char) = (cs.takeWhile is_key_char).length :=
    byte_length_ascii fun c hc => is_key_char_ascii (List.mem_takeWhile_imp hc)
  have hcut := cut_of_initial (List.takeWhile_prefix (l := cs) is_key_char)
  rwa [hlen] at hcut

/-- **No text makes a slice of `parse_term` miss a character boundary.** -/
theorem parse_term_sliced_eq (text : String) (starts_quoted : Bool) (s : Store) :
    parse_term_sliced text starts_quoted s = some (parse_term text starts_quoted s) := by
  unfold parse_term_sliced parse_term
  by_cases hquoted : starts_quoted
  · rw [if_pos hquoted, if_pos hquoted]
  rw [if_neg hquoted, if_neg hquoted]
  set cs := text.toList with hcs
  set key := cs.takeWhile is_key_char with hkey
  have hcut : cut cs key.length = some (key, cs.drop key.length) := cut_key cs
  by_cases hstart : cs.head?.any is_key_start
  · simp only [if_pos hstart, ← hkey]
    by_cases hempty : key = []
    · rw [if_pos (List.length_eq_zero_iff.mpr hempty), if_pos (Or.inl hempty)]
      rfl
    rw [if_neg fun hlen => hempty (List.length_eq_zero_iff.mp hlen), hcut]
    set rest := cs.drop key.length
    simp only [Option.bind_eq_bind, Option.bind_some]
    by_cases hrest : rest = []
    · rw [if_pos hrest, if_pos (Or.inr hrest)]
      rfl
    have hterm : ¬(key = [] ∨ rest = []) := fun h => h.elim hempty hrest
    rw [if_neg hrest, if_neg hterm]
    cases hop : OPS.find? fun p => decide (p.1.toList <+: rest) with
    | some p =>
      -- the operator that was found is a prefix, so its end is a boundary
      have hlit : p.1.toList <+: rest := by simpa using List.find?_some hop
      simp only [cut_of_initial hlit, Option.bind_some]
      rfl
    | none =>
      dsimp only
      by_cases hglyph : rest.head? = some '!' ∨ rest.head? = some '~'
      · rw [if_pos hglyph, if_pos hglyph]
        rfl
      · rw [if_neg hglyph, if_neg hglyph]
        rfl
  · -- no key: the source counts zero characters
    simp only [if_neg hstart]
    rfl

/-! ## Durations -/

/-- A checked difference is the difference, or there is none. -/
theorem checked_sub_exact (a b : UInt64) :
    (∀ d, checked_sub a b = some d ↔ d.toNat + b.toNat = a.toNat)
      ∧ (checked_sub a b = none ↔ a.toNat < b.toNat) := by
  unfold checked_sub
  by_cases hle : b ≤ a
  · have hnat := UInt64.le_iff_toNat_le.mp hle
    have hsub := UInt64.toNat_sub_of_le a b hle
    rw [if_pos hle]
    constructor
    · intro d
      rw [Option.some.injEq, ← UInt64.toNat_inj, hsub]
      omega
    · simp only [reduceCtorEq, false_iff]
      omega
  · rw [UInt64.le_iff_toNat_le] at hle
    rw [if_neg (by rwa [UInt64.le_iff_toNat_le])]
    constructor
    · intro d
      simp only [reduceCtorEq, false_iff]
      omega
    · simp only [true_iff]
      omega

/-- A duration literal that is accepted is worth its number times its unit. -/
theorem parse_duration_exact {raw : String} {d : UInt64} (h : parse_duration raw = some d) :
    ∃ n, parse_u64 (split_unit raw).1 = some n ∧ d.toNat = n.toNat * (split_unit raw).2 := by
  unfold parse_duration at h
  dsimp only at h
  obtain ⟨n, hn, h⟩ := Option.bind_eq_some_iff.mp h
  refine ⟨n, hn, ?_⟩
  by_cases hlt : n.toNat * (split_unit raw).2 < 2 ^ 64
  · rw [if_pos hlt, Option.some.injEq] at h
    rw [← h, UInt64.toNat_ofNat', Nat.mod_eq_of_lt hlt]
  · rw [if_neg hlt] at h
    cases h

/-- The sixteen bytes of an id take what the text's chunks of two fill. -/
theorem chunks2_length (bytes : List UInt8) : (chunks2 bytes).length = (bytes.length + 1) / 2 := by
  induction bytes using chunks2.induct with
  | case1 a b rest ih =>
    rw [chunks2, List.length_cons, ih, List.length_cons, List.length_cons]
    omega
  | case2 a => rw [chunks2, List.length_singleton, List.length_singleton]
  | case3 => rw [chunks2]; rfl

/-! ## Every run, every request -/

namespace Store

/-- **No stored data and no request panics.** A run below the attribute limit
ends, in its store every stored position is in range, and the four handlers
answer whatever they are asked. -/
theorem no_panic (m : ℕ) (es : List Event) (hsmall : AttrsBelow (new m) es) :
    ∃ s, exec step es (new m) = some s
      ∧ (∀ id t, s.trace id = some t → InRange s t)
      ∧ (∀ order, (s.list_traces order).isSome)
      ∧ (∀ id, (s.get_trace id).isSome)
      ∧ (∀ id idx, (s.get_attributes id idx).isSome)
      ∧ (∀ id q, (s.get_filter id q).isSome)
      ∧ (∀ text starts_quoted,
          parse_term_sliced text starts_quoted s = some (parse_term text starts_quoted s))
      ∧ (∀ id : String, id.utf8ByteSize = 32 → (chunks2 id.toUTF8.data.toList).length = 16)
      ∧ (∀ a b, (∀ d, checked_sub a b = some d ↔ d.toNat + b.toNat = a.toNat)
          ∧ (checked_sub a b = none ↔ a.toNat < b.toNat))
      ∧ ∀ raw d, parse_duration raw = some d →
          ∃ n, parse_u64 (split_unit raw).1 = some n ∧ d.toNat = n.toNat * (split_unit raw).2 := by
  obtain ⟨s, hs, hh⟩ := run_holds m es hsmall
  have hrange : ∀ id t, s.trace id = some t → InRange s t := fun id t ht =>
    hh.in_range ht (hsmall.last hs ht)
  refine ⟨s, hs, hrange, list_traces_isSome hrange, get_trace_isSome hrange,
    get_attributes_isSome hrange, get_filter_isSome hrange,
    fun text quoted => parse_term_sliced_eq text quoted s, fun id hlen => ?_, checked_sub_exact,
    fun raw d => parse_duration_exact⟩
  have hbytes : id.toUTF8.data.toList.length = 32 := by
    rw [Array.length_toList]
    exact hlen
  rw [chunks2_length, hbytes]

theorem no_panic_overwrite :
    ∃ s, exec step (overwrite_then_evict.flatMap StoreOp.events) (new 250) = some s
      ∧ ∀ id q, (s.get_filter id q).isSome := by
  obtain ⟨s, hs, _, _, _, _, hfilter, _⟩ := no_panic 250
    (overwrite_then_evict.flatMap StoreOp.events) (AttrsBelow.of_sent (by decide +kernel))
  exact ⟨s, hs, hfilter⟩

end Store

end Spanfall
