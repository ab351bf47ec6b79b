/-
`TraceColumns.lean` -- what the columns of a trace hold.

A trace's rows are the list `R` of the spans as they last came, one for each
span id, in order of first arrival. Every column is `R` read through one field
([`Columns`]); the ragged attributes are the CSR form of `R`'s attribute lists,
each restricted to the keys the interner knows. An `insert` writes one row of
`R` ([`Columns.insert`]), and the two ways it can do that are the two lemmas
before: a splice in the middle ([`Columns.overwrite`]) and a push at the end
([`Columns.push`]).

The splice reads the two offsets of its row back from `u32`, so it needs the row
to end below `2 ^ 32` ([`Unwrapped`]), whatever comes behind it. The push does not.
-/
import Spanfall.Lib.Csr
import Spanfall.Store.TraceLinks

set_option autoImplicit false

namespace Spanfall

open Lib.Vec Lib.Csr Lib.HashMap Lib.LastWrite

/-! ## Attributes through the interner -/

/-- The attributes whose key the interner knows, under the key's id. -/
def kept_attrs (key : Interner) (attrs : List (String × AttrValue)) : List (UInt32 × AttrValue) :=
  attrs.filterMap fun kv => (key.lookup kv.1).map (·, kv.2)

/-- The kept attributes of every row. -/
def attr_rows (key : Interner) (R : List NewSpan) : List (List (UInt32 × AttrValue)) :=
  R.map fun r => kept_attrs key r.attributes

/-- Interning a list of attributes presents its keys, and the result is read
off the interner it leaves behind. -/
theorem intern_attrs_spec {I : Interner} {ks : List String} (h : I.Holds ks)
    (attrs : List (String × AttrValue)) :
    (Trace.intern_attrs I attrs).2.Holds (ks ++ attrs.map Prod.fst)
      ∧ (Trace.intern_attrs I attrs).2.cap = I.cap
      ∧ (Trace.intern_attrs I attrs).1 = kept_attrs (Trace.intern_attrs I attrs).2 attrs := by
  induction attrs generalizing I ks with
  | nil => exact ⟨by rwa [List.map_nil, List.append_nil], rfl, rfl⟩
  | cons kv rest ih =>
    obtain ⟨k, v⟩ := kv
    obtain ⟨h₁, hcap₁, hid⟩ := Interner.intern_holds h k
    obtain ⟨h₂, hcap₂, hout⟩ := ih h₁
    set J := (Trace.intern_attrs (I.intern k).2 rest).2 with hJ
    -- the answer for `k` is already final when the rest is interned
    have hk : (I.intern k).1 = J.lookup k := by
      rw [hid]
      exact (h₁.lookup_stable h₂ hcap₂ (by simp)).symm
    have hstep : Trace.intern_attrs I ((k, v) :: rest)
        = (kept_attrs J ((k, v) :: rest), J) := by
      rw [Trace.intern_attrs]
      simp only [hk, hout, ← hJ, kept_attrs, List.filterMap_cons]
      cases J.lookup k <;> rfl
    rw [hstep]
    refine ⟨?_, hcap₂.trans hcap₁, rfl⟩
    rwa [List.append_assoc] at h₂

/-! ## The columns -/

/-- The columns of `t` are the rows `R`. -/
structure Columns (t : Trace) (key svc : Interner) (R : List NewSpan) : Prop where
  span_ids : t.span_ids = R.map (·.span_id)
  names : t.names = R.map (·.name)
  start_times : t.start_times_unix_nano = R.map (·.start_time_unix_nano)
  end_times : t.end_times_unix_nano = R.map (·.end_time_unix_nano)
  status_messages : t.status_messages = R.map (·.status_message)
  status_codes : t.status_codes = R.map (·.status_code)
  unknown_services : t.unknown_services = R.map (·.unknown_service)
  service_name_ids : t.service_name_ids = R.map fun r => r.service_name.bind svc.lookup
  attr_keys : t.attr_keys = ((attr_rows key R).map (List.map Prod.fst)).flatten
  attr_values : t.attr_values = ((attr_rows key R).map (List.map Prod.snd)).flatten
  attr_offsets : t.attr_offsets = (offsets (attr_rows key R)).map UInt32.ofNat

namespace Columns

theorem new (trace_id : TraceId) (now : UInt64) (key svc : Interner) :
    Columns (Trace.new trace_id now) key svc [] := by
  constructor <;> rfl

variable {t t' : Trace} {key key' svc svc' : Interner} {R : List NewSpan}

theorem attr_rows_congr (hkey : ∀ r ∈ R, ∀ kv ∈ r.attributes, key'.lookup kv.1 = key.lookup kv.1) :
    attr_rows key' R = attr_rows key R := by
  refine List.map_congr_left fun r hr => List.filterMap_congr fun kv hkv => ?_
  rw [hkey r hr kv hkv]

/-- The columns only read the interners at what `R` mentions. -/
theorem congr_interners (h : Columns t key svc R)
    (hkey : ∀ r ∈ R, ∀ kv ∈ r.attributes, key'.lookup kv.1 = key.lookup kv.1)
    (hsvc : ∀ r ∈ R, ∀ n, r.service_name = some n → svc'.lookup n = svc.lookup n) :
    Columns t key' svc' R := by
  have hrows := attr_rows_congr hkey
  refine { h with service_name_ids := ?_, attr_keys := ?_, attr_values := ?_, attr_offsets := ?_ }
  · rw [h.service_name_ids]
    refine List.map_congr_left fun r hr => ?_
    cases hn : r.service_name with
    | none => rfl
    | some n => exact (hsvc r hr n hn).symm
  · rw [hrows, h.attr_keys]
  · rw [hrows, h.attr_values]
  · rw [hrows, h.attr_offsets]

/-- The last activity is no column. -/
theorem touch (h : Columns t key svc R) (now : UInt64) :
    Columns { t with last_activity_unix_nano := now } key svc R :=
  { h with }

theorem attr_keys_length (h : Columns t key svc R) :
    t.attr_keys.length = (attr_rows key R).flatten.length := by
  rw [h.attr_keys, ← List.map_flatten, List.length_map]

/-- Below the limit no offset has wrapped. -/
theorem offset_lt (h : Columns t key svc R) (hsmall : t.attr_keys.length < 2 ^ 32) (i : ℕ) :
    offset (attr_rows key R) i < 2 ^ 32 := by
  rw [h.attr_keys_length] at hsmall
  exact lt_of_le_of_lt (offset_le_flatten _ i) hsmall

/-! ### Reading -/

section Read

variable {i : ℕ} {r : NewSpan}

/-- An offset, as its `u32`. -/
theorem attr_offset (h : Columns t key svc R) (hi : i ≤ R.length) :
    t.attr_offsets[i]? = some (UInt32.ofNat (offset (attr_rows key R) i)) := by
  have hlen : (attr_rows key R).length = R.length := List.length_map _
  rw [h.attr_offsets, List.getElem?_map, offsets_getElem? (by omega), Option.map_some]

/-- An offset, read back where it has not wrapped. -/
theorem attr_offset_of_lt (h : Columns t key svc R) (hlt : offset (attr_rows key R) i < 2 ^ 32)
    (hi : i ≤ R.length) :
    ∃ o : UInt32, t.attr_offsets[i]? = some o ∧ o.toNat = offset (attr_rows key R) i :=
  ⟨_, h.attr_offset hi, by rw [UInt32.toNat_ofNat', Nat.mod_eq_of_lt hlt]⟩

/-- A row shows the attributes it was sent with where it ends below `2 ^ 32`. -/
theorem attributes (h : Columns t key svc R) (hend : offset (attr_rows key R) (i + 1) < 2 ^ 32)
    (hr : R[i]? = some r) :
    t.attributes i = some ((kept_attrs key r.attributes).map Prod.snd)
      ∧ t.attribute_keys i = some ((kept_attrs key r.attributes).map Prod.fst) := by
  obtain ⟨hi, rfl⟩ := List.getElem?_eq_some_iff.mp hr
  have hbegin := lt_of_le_of_lt (offset_le_succ (attr_rows key R) i) hend
  obtain ⟨start, hstart, hstart'⟩ := h.attr_offset_of_lt hbegin (by omega)
  obtain ⟨stop, hstop, hstop'⟩ := h.attr_offset_of_lt hend (by omega)
  -- one row of either dense array
  have row : ∀ {γ : Type} (f : UInt32 × AttrValue → γ),
      slice ((attr_rows key R).map (List.map f)).flatten start.toNat stop.toNat
        = some ((kept_attrs key R[i].attributes).map f) := fun f => by
    have hi' : i < ((attr_rows key R).map (List.map f)).length := by
      rw [List.length_map, attr_rows, List.length_map]
      exact hi
    have := slice_flatten hi'
    rw [offset_map, offset_map] at this
    rw [hstart', hstop', this]
    simp [attr_rows]
  constructor
  · rw [Trace.attributes, hstart, hstop]
    exact h.attr_values ▸ row Prod.snd
  · rw [Trace.attribute_keys, hstart, hstop]
    exact h.attr_keys ▸ row Prod.fst

end Read

/-! ### Writing -/

section Write

variable {span : NewSpan} {i : ℕ}

theorem attr_rows_length (key : Interner) (R : List NewSpan) :
    (attr_rows key R).length = R.length := List.length_map _

theorem attr_rows_set (key : Interner) (R : List NewSpan) (i : ℕ) (span : NewSpan) :
    attr_rows key (R.set i span) = (attr_rows key R).set i (kept_attrs key span.attributes) :=
  List.map_set

/-- One dense array under the splice of `overwrite_at`. -/
theorem splice_rows {γ : Type} (key : Interner) (R : List NewSpan) (hi : i < R.length)
    (f : UInt32 × AttrValue → γ) (span : NewSpan) :
    splice ((attr_rows key R).map (List.map f)).flatten
        (offset (attr_rows key R) i) (offset (attr_rows key R) (i + 1))
        ((kept_attrs key span.attributes).map f)
      = some ((attr_rows key (R.set i span)).map (List.map f)).flatten := by
  have hi' : i < ((attr_rows key R).map (List.map f)).length := by
    rw [List.length_map, attr_rows_length]
    exact hi
  have := splice_flatten hi' ((kept_attrs key span.attributes).map f)
  rwa [offset_map, offset_map, ← List.map_set, ← attr_rows_set] at this

/-- **An overwrite writes one row in the middle**: the splices and the shift
land on the columns of `R` with row `i` replaced, if that row ends below
`2 ^ 32`. -/
theorem overwrite (h : Columns t key svc R) {old : NewSpan} (hold : R[i]? = some old)
    (hid : old.span_id = span.span_id) (hend : offset (attr_rows key R) (i + 1) < 2 ^ 32) :
    ∃ t', t.overwrite_at i span (span.service_name.bind svc.lookup)
        (kept_attrs key span.attributes) = some t' ∧ Columns t' key svc (R.set i span) := by
  obtain ⟨hi, rfl⟩ := List.getElem?_eq_some_iff.mp hold
  have hbegin := lt_of_le_of_lt (offset_le_succ (attr_rows key R) i) hend
  obtain ⟨start, hstart, hstart'⟩ := h.attr_offset_of_lt hbegin (by omega)
  obtain ⟨stop, hstop, hstop'⟩ := h.attr_offset_of_lt hend (by omega)
  have hrows : i < (attr_rows key R).length := by rwa [attr_rows_length]
  -- a column that copies a field
  have column : ∀ {γ : Type} {v : List γ} {f : NewSpan → γ}, v = R.map f →
      setAt v i (f span) = some ((R.set i span).map f) := fun hv => by
    rw [hv, setAt_of_lt _ (by rwa [List.length_map]), List.map_set]
  have hoffsets : t.attr_offsets.take (i + 1) ++ (t.attr_offsets.drop (i + 1)).map (fun off =>
        UInt32.ofInt ((off.toNat : ℤ) + (((kept_attrs key span.attributes).length : ℤ)
          - ((offset (attr_rows key R) (i + 1) - offset (attr_rows key R) i : ℕ) : ℤ))))
      = (offsets (attr_rows key (R.set i span))).map UInt32.ofNat := by
    rw [h.attr_offsets, attr_rows_set, offset_succ hrows, Nat.add_sub_cancel_left]
    exact offsets_set hrows _ _ _ fun j hj => shift_offset hrows _ hj
  refine ⟨{ t with
    names := (R.set i span).map (·.name)
    start_times_unix_nano := (R.set i span).map (·.start_time_unix_nano)
    end_times_unix_nano := (R.set i span).map (·.end_time_unix_nano)
    status_messages := (R.set i span).map (·.status_message)
    status_codes := (R.set i span).map (·.status_code)
    unknown_services := (R.set i span).map (·.unknown_service)
    service_name_ids := (R.set i span).map fun r => r.service_name.bind svc.lookup
    attr_keys := ((attr_rows key (R.set i span)).map (List.map Prod.fst)).flatten
    attr_values := ((attr_rows key (R.set i span)).map (List.map Prod.snd)).flatten
    attr_offsets := (offsets (attr_rows key (R.set i span))).map UInt32.ofNat }, ?_, ?_⟩
  · simp only [Trace.overwrite_at, column h.names, column h.start_times, column h.end_times,
      column h.status_messages, column h.status_codes, column h.unknown_services,
      column h.service_name_ids, hstart, hstop, hstart', hstop', h.attr_keys, h.attr_values,
      splice_rows key R hi, Option.bind_eq_bind, Option.bind_some, Option.pure_def]
    rw [hoffsets]
  · refine { span_ids := ?_, names := rfl, start_times := rfl, end_times := rfl,
             status_messages := rfl, status_codes := rfl, unknown_services := rfl,
             service_name_ids := rfl, attr_keys := rfl, attr_values := rfl, attr_offsets := rfl }
    change t.span_ids = _
    rw [h.span_ids, List.map_set, ← hid, ← List.map_set, List.set_getElem_self]

/-- **A push adds one row at the end**; the patch that follows writes no
column. -/
theorem push (h : Columns t key svc R) {span_id : SpanId} {idx : ℕ}
    (hp : (t.push_span span (span.service_name.bind svc.lookup)
      (kept_attrs key span.attributes)).patch_children span_id idx = some t') :
    Columns t' key svc (R ++ [span]) := by
  obtain ⟨parent_idxs, orphans, rfl⟩ := Trace.patch_children_frame hp
  have hrows : attr_rows key (R ++ [span])
      = attr_rows key R ++ [kept_attrs key span.attributes] := List.map_append
  -- the pushes for the parent touch none of the columns
  obtain ⟨ps, os, pending, hframe⟩ := Trace.push_parent_frame
    (t.push_columns span (span.service_name.bind svc.lookup)) t.span_ids.length
    span.parent_span_id
  simp only [Trace.push_span, hframe]
  have hkeys : t.attr_keys ++ (kept_attrs key span.attributes).map Prod.fst
      = ((attr_rows key (R ++ [span])).map (List.map Prod.fst)).flatten := by
    rw [hrows, h.attr_keys]
    simp
  constructor
  all_goals simp only [Trace.push_attrs, Trace.push_columns, List.map_append, List.map_singleton]
  · rw [h.span_ids]
  · rw [h.names]
  · rw [h.start_times]
  · rw [h.end_times]
  · rw [h.status_messages]
  · rw [h.status_codes]
  · rw [h.unknown_services]
  · rw [h.service_name_ids]
  · exact hkeys
  · rw [hrows, h.attr_values]
    simp
  · rw [hrows, offsets_append, h.attr_offsets, List.map_append, List.map_singleton,
      List.length_append, h.attr_keys_length, List.length_map]

end Write

end Columns

/-! ## One insert -/

/-- The row of `span_id`, if there is one, ends before the offsets wrap. -/
def Unwrapped (key : Interner) (R : List NewSpan) (span_id : SpanId) : Prop :=
  ∀ i, (R.map (·.span_id))[i]? = some span_id → offset (attr_rows key R) (i + 1) < 2 ^ 32

theorem Unwrapped.nil (key : Interner) (span_id : SpanId) : Unwrapped key [] span_id := by
  intro i hi
  cases hi

/-- Below the limit every row does. -/
theorem Columns.unwrapped {t : Trace} {key svc : Interner} {R : List NewSpan}
    (h : Columns t key svc R) (hsmall : t.attr_keys.length < 2 ^ 32) (span_id : SpanId) :
    Unwrapped key R span_id := fun i _ => h.offset_lt hsmall (i + 1)

/-- A trace to which exactly the spans `arrived` have been sent, in order. -/
structure Trace.Holds (t : Trace) (key svc : Interner) (arrived : List NewSpan) : Prop where
  columns : Columns t key svc (lastWrites NewSpan.span_id arrived)
  links : Links t (firsts arrived)

namespace Trace

theorem new_holds (trace_id : TraceId) (now : UInt64) (key svc : Interner) :
    (new trace_id now).Holds key svc [] where
  columns := Columns.new trace_id now key svc
  links := Links.new trace_id now

/-- Interners that have grown still describe the trace. -/
theorem Holds.congr_interners {t : Trace} {key key' svc svc' : Interner}
    {arrived : List NewSpan} (h : t.Holds key svc arrived)
    (hkey : ∀ r ∈ arrived, ∀ kv ∈ r.attributes, key'.lookup kv.1 = key.lookup kv.1)
    (hsvc : ∀ r ∈ arrived, ∀ n, r.service_name = some n → svc'.lookup n = svc.lookup n) :
    t.Holds key' svc' arrived where
  columns := h.columns.congr_interners (fun r hr => hkey r (mem_of_mem_lastWrites hr))
    fun r hr => hsvc r (mem_of_mem_lastWrites hr)
  links := h.links

/-- **The rows determine the trace**, but for its id, generation and last
activity. -/
theorem Holds.unique {t t' : Trace} {key svc : Interner} {arrived arrived' : List NewSpan}
    (h : t.Holds key svc arrived) (h' : t'.Holds key svc arrived')
    (hlast : lastWrites NewSpan.span_id arrived' = lastWrites NewSpan.span_id arrived)
    (hfirst : firsts arrived' = firsts arrived) (hid : t'.trace_id = t.trace_id)
    (hgen : t'.generation = t.generation) : t'.forget_activity = t.forget_activity := by
  obtain ⟨c, l⟩ := h
  obtain ⟨c', l'⟩ := h'
  rw [hlast] at c'
  rw [hfirst] at l'
  have hids : t'.span_ids = t.span_ids := c'.span_ids.trans c.span_ids.symm
  -- the index is determined by the ids, and the links by the index
  have hindex : t'.span_index = t.span_index :=
    Finmap.ext_lookup fun id => Option.ext fun i => by rw [l'.index, l.index, hids]
  have hparents : t'.parent_idxs = t.parent_idxs := by rw [l'.parents, l.parents, hindex]
  have horphans : t'.orphans = t.orphans := by rw [l'.orphans, l.orphans, hindex]
  have hpending : t'.pending_children = t.pending_children :=
    Finmap.ext_lookup fun q => by rw [l'.pending, l.pending, hindex]
  have hnames : t'.names = t.names := c'.names.trans c.names.symm
  have hstart := c'.start_times.trans c.start_times.symm
  have hend := c'.end_times.trans c.end_times.symm
  have hmsg := c'.status_messages.trans c.status_messages.symm
  have hcode := c'.status_codes.trans c.status_codes.symm
  have hunk := c'.unknown_services.trans c.unknown_services.symm
  have hsvc := c'.service_name_ids.trans c.service_name_ids.symm
  have hkeys := c'.attr_keys.trans c.attr_keys.symm
  have hvals := c'.attr_values.trans c.attr_values.symm
  have hoffs := c'.attr_offsets.trans c.attr_offsets.symm
  simp only [forget_activity, hid, hgen, hids, hnames, hparents, hstart, hend, hmsg, hcode,
    horphans, hunk, hsvc, hkeys, hvals, hoffs, hindex, hpending]

/-- **`insert` on a trace**: it ends, and the trace holds one more arrival, if the
row that is overwritten has not wrapped. The interner has been shown the keys `ks`
before. -/
theorem Holds.insert {t : Trace} {key svc : Interner} {arrived : List NewSpan} {ks : List String}
    (h : t.Holds key svc arrived) (hkey : key.Holds ks)
    (hshown : ∀ r ∈ arrived, ∀ kv ∈ r.attributes, kv.1 ∈ ks)
    (span : NewSpan) (now : UInt64)
    (hend : Unwrapped key (lastWrites NewSpan.span_id arrived) span.span_id) :
    ∃ t' out, t.insert span (span.service_name.bind svc.lookup) key now
        = some (t', (intern_attrs key span.attributes).2, out)
      ∧ t'.Holds (intern_attrs key span.attributes).2 svc (arrived ++ [span]) := by
  obtain ⟨hkey', hcap, hattrs⟩ := intern_attrs_spec hkey span.attributes
  set key' := (intern_attrs key span.attributes).2 with hkey'def
  have hsame : ∀ r ∈ arrived, ∀ kv ∈ r.attributes, key'.lookup kv.1 = key.lookup kv.1 :=
    fun r hr kv hkv => hkey.lookup_stable hkey' hcap (hshown r hr kv hkv)
  have hcols : Columns { t with last_activity_unix_nano := now } key' svc
      (lastWrites NewSpan.span_id arrived) :=
    ((h.congr_interners hsame fun _ _ _ _ => rfl).columns).touch now
  have hlinks : Links { t with last_activity_unix_nano := now } (firsts arrived) :=
    h.links.congr_fields rfl rfl rfl rfl rfl
  have hids : (lastWrites NewSpan.span_id arrived).map (·.span_id) = t.span_ids :=
    h.columns.span_ids.symm
  suffices hins : ∃ t' out, t.insert span (span.service_name.bind svc.lookup) key now
        = some (t', key', out)
      ∧ Columns t' key' svc (lastWrites NewSpan.span_id (arrived ++ [span])) by
    obtain ⟨t', out, hins, hcols'⟩ := hins
    exact ⟨t', out, hins, hcols', h.links.insert hins⟩
  rw [lastWrites_snoc]
  cases hl : t.span_index.lookup span.span_id with
  -- a duplicate: the row with its id is overwritten
  | some idx =>
    have hat : t.span_ids[idx]? = some span.span_id := (h.links.index _ _).mp hl
    obtain ⟨old, hold, hid⟩ : ∃ old, (lastWrites NewSpan.span_id arrived)[idx]? = some old
        ∧ old.span_id = span.span_id := by
      rw [← hids, List.getElem?_map] at hat
      exact Option.map_eq_some_iff.mp hat
    have hrow : ((lastWrites NewSpan.span_id arrived).map NewSpan.span_id)[idx]?
        = some span.span_id := by rw [← hat, ← hids]
    have hend' : offset (attr_rows key' (lastWrites NewSpan.span_id arrived)) (idx + 1) < 2 ^ 32 := by
      rw [Columns.attr_rows_congr fun r hr => hsame r (mem_of_mem_lastWrites hr)]
      exact hend idx hrow
    obtain ⟨t', ho, hcols'⟩ := hcols.overwrite hold hid hend'
    rw [upsert_of_getElem? (lastWrites_nodup arrived) hrow]
    refine ⟨t', { local_idx := idx, is_duplicate := true }, ?_, hcols'⟩
    simp only [Trace.insert, hl, hattrs, ← hkey'def, ho, Option.bind_eq_bind, Option.bind_some,
      Option.pure_def]
  -- a new id: a row is pushed
  | none =>
    obtain ⟨t', hp, _⟩ := hlinks.push (span.service_name.bind svc.lookup)
      (kept_attrs key' span.attributes) hl
    have hout : span.span_id ∉ (lastWrites NewSpan.span_id arrived).map (·.span_id) := by
      rw [hids]
      exact (h.links.index_eq_none _).mp hl
    rw [upsert_of_notMem hout]
    refine ⟨t', { local_idx := t.span_ids.length, is_duplicate := false }, ?_, hcols.push hp⟩
    simp only [Trace.insert, hl, hattrs, ← hkey'def, hp, Option.bind_eq_bind, Option.bind_some,
      Option.pure_def]

end Trace

end Spanfall
