/-
`Charge.lean` -- what a trace holds against what the estimate charges for it.

The estimate reads the offsets, and the offsets wrap at `2 ^ 32`. So the
results here do not go through the columns of `TraceColumns.lean`, which need a
trace below that limit: they carry an invariant of their own ([`Trace.Metered`]),
which only counts entries and bounds strings. It survives every insert of a
span with fewer than `2 ^ 32` attributes, because a difference of two offsets is
right even when the offsets have wrapped.
-/
import Mathlib.Algebra.BigOperators.Group.List.Basic
import Mathlib.Algebra.BigOperators.Ring.List
import Mathlib.Algebra.Group.Action.Defs
import Spanfall.Lib.Csr
import Spanfall.Store.Store

set_option autoImplicit false

namespace Spanfall

open Lib.Csr Lib.HashMap Lib.Vec

/-- The bytes of a string value. -/
def AttrValue.str_bytes : AttrValue → ℕ
  | .str s => s.utf8ByteSize
  | .int _ => 0
  | .double _ => 0
  | .bool _ => 0

namespace Trace

/-- The bytes of the variable-length data of a trace and the number of its
spans and attribute entries. -/
def content (t : Trace) : ℕ :=
  (t.names.map (·.utf8ByteSize)).sum + (t.status_messages.map (·.utf8ByteSize)).sum
    + (t.attr_values.map AttrValue.str_bytes).sum + t.span_count + t.attr_values.length

/-! ## The two paths, counted -/

section Paths

variable {t t' : Trace} {idx : ℕ} {span : NewSpan} {svc : Option UInt32}
  {attrs : List (UInt32 × AttrValue)}

/-- An overwrite, on the columns that the charge reads. -/
theorem overwrite_at_charged (h : t.overwrite_at idx span svc attrs = some t') :
    idx < t.names.length ∧ t'.span_ids = t.span_ids ∧ t'.names = t.names.set idx span.name
      ∧ t'.status_messages = t.status_messages.set idx span.status_message
      ∧ ∃ start stop, t.attr_offsets[idx]? = some start ∧ t.attr_offsets[idx + 1]? = some stop
        ∧ splice t.attr_keys start.toNat stop.toNat (attrs.map Prod.fst) = some t'.attr_keys
        ∧ splice t.attr_values start.toNat stop.toNat (attrs.map Prod.snd) = some t'.attr_values
        ∧ t'.attr_offsets = t.attr_offsets.take (idx + 1)
            ++ (t.attr_offsets.drop (idx + 1)).map fun off => UInt32.ofInt ((off.toNat : ℤ)
              + ((attrs.length : ℤ) - ((stop.toNat - start.toNat : ℕ) : ℤ))) := by
  obtain ⟨start, stop, _, _, hidx, hstart, hstop, hkeys, hvalues, rfl⟩ := overwrite_at_cases h
  exact ⟨hidx, rfl, rfl, rfl, start, stop, hstart, hstop, hkeys, hvalues, rfl⟩

/-- A push, on the same columns. -/
theorem push_charged {span_id : SpanId} {i : ℕ}
    (h : (t.push_span span svc attrs).patch_children span_id i = some t') :
    t'.span_ids = t.span_ids ++ [span.span_id] ∧ t'.names = t.names ++ [span.name]
      ∧ t'.status_messages = t.status_messages ++ [span.status_message]
      ∧ t'.attr_keys = t.attr_keys ++ attrs.map Prod.fst
      ∧ t'.attr_values = t.attr_values ++ attrs.map Prod.snd
      ∧ t'.attr_offsets
          = t.attr_offsets ++ [UInt32.ofNat (t.attr_keys ++ attrs.map Prod.fst).length] := by
  obtain ⟨_, _, rfl⟩ := patch_children_frame h
  obtain ⟨_, _, _, hframe⟩ :=
    push_parent_frame (push_columns t span svc) t.span_ids.length span.parent_span_id
  simp only [push_span, hframe]
  exact ⟨rfl, rfl, rfl, rfl, rfl, rfl⟩

end Paths

/-- After an insert there is a span, and every span has a name. -/
theorem insert_named {t t' : Trace} {span : NewSpan} {svc : Option UInt32} {I I' : Interner}
    {now : UInt64} {out : InsertOutcome} (h : t.insert span svc I now = some (t', I', out))
    (hnamed : t.names.length = t.span_count) :
    t'.names.length = t'.span_count ∧ 0 < t'.span_count := by
  unfold span_count at hnamed ⊢
  obtain ⟨_, ⟨idx, _, _, ho⟩ | ⟨_, _, hp⟩⟩ := insert_cases h
  · obtain ⟨hidx, hids, hnames, _⟩ := overwrite_at_charged ho
    dsimp only at hidx hids hnames
    rw [hnames, hids, List.length_set, ← hnamed]
    exact ⟨rfl, Nat.zero_lt_of_lt hidx⟩
  · obtain ⟨hids, hnames, _⟩ := push_charged hp
    dsimp only at hids hnames
    rw [hids, hnames, List.length_append, List.length_append, hnamed]
    exact ⟨rfl, Nat.succ_pos _⟩

/-- Interning drops pairs and adds none. -/
theorem intern_attrs_values (I : Interner) (attrs : List (String × AttrValue)) :
    ∀ a ∈ (intern_attrs I attrs).1, ∃ kv ∈ attrs, kv.2 = a.2 := by
  induction attrs generalizing I with
  | nil => exact fun a ha => absurd ha List.not_mem_nil
  | cons kv rest ih =>
    obtain ⟨k, v⟩ := kv
    intro a ha
    have hrest : a ∈ (intern_attrs (I.intern k).2 rest).1 → ∃ kv ∈ (k, v) :: rest, kv.2 = a.2 :=
      fun ha => by
        obtain ⟨kv, hkv, e⟩ := ih _ a ha
        exact ⟨kv, List.mem_cons_of_mem _ hkv, e⟩
    rw [intern_attrs] at ha
    dsimp only at ha
    cases hi : (I.intern k).1 with
    | none =>
      rw [hi] at ha
      exact hrest ha
    | some id =>
      rw [hi] at ha
      obtain rfl | ha := List.mem_cons.mp ha
      · exact ⟨(k, v), List.mem_cons_self, rfl⟩
      · exact hrest ha

/-! ## The meter -/

/-- The columns of `t` have the lengths of `rows`, the offsets are those of
`rows` up to wrapping, and no string that goes uncharged is longer than
`limit`. -/
structure Metered (t : Trace) (limit : ℕ) (rows : List (List (UInt32 × AttrValue))) : Prop where
  names : t.names.length = t.span_count
  messages : t.status_messages.length = t.span_count
  row_count : rows.length = t.span_count
  keys : t.attr_keys.length = rows.flatten.length
  values : t.attr_values.length = rows.flatten.length
  offsets : t.attr_offsets = (offsets rows).map UInt32.ofNat
  small : ∀ row ∈ rows, row.length < 2 ^ 32
  message_le : ∀ msg ∈ t.status_messages, msg.utf8ByteSize ≤ limit
  value_le : ∀ v ∈ t.attr_values, v.str_bytes ≤ limit

theorem Metered.new (trace_id : TraceId) (now : UInt64) (limit : ℕ) :
    (Trace.new trace_id now).Metered limit [] where
  names := rfl
  messages := rfl
  row_count := rfl
  keys := rfl
  values := rfl
  offsets := rfl
  small _ h := absurd h List.not_mem_nil
  message_le _ h := absurd h List.not_mem_nil
  value_le _ h := absurd h List.not_mem_nil

namespace Metered

variable {t t' : Trace} {limit : ℕ} {rows : List (List (UInt32 × AttrValue))}

/-- Two neighbouring offsets in the right order are a row apart. -/
theorem row_length (h : t.Metered limit rows) {i : ℕ} (hi : i < rows.length) {start stop : UInt32}
    (hstart : t.attr_offsets[i]? = some start) (hstop : t.attr_offsets[i + 1]? = some stop)
    (hle : start.toNat ≤ stop.toNat) : stop.toNat - start.toNat = rows[i].length := by
  rw [h.offsets, List.getElem?_map, offsets_getElem? (by omega), Option.map_some,
    Option.some.injEq] at hstart hstop
  have hsmall := h.small rows[i] (List.getElem_mem hi)
  have hsucc := offset_succ hi
  -- they are a row apart modulo `2 ^ 32`, and the order excludes a wrap between
  -- them, because the row is shorter than that
  rw [← hstart, ← hstop, UInt32.toNat_ofNat', UInt32.toNat_ofNat'] at hle ⊢
  omega

/-- A splice of one row, counted. -/
theorem splice_length {γ : Type} {v w new : List γ} {i : ℕ} (hi : i < rows.length)
    {start stop : ℕ} (hv : v.length = rows.flatten.length)
    (hrow : stop - start = rows[i].length) (h : splice v start stop new = some w)
    {row : List (UInt32 × AttrValue)} (hnew : new.length = row.length) :
    w.length = (rows.set i row).flatten.length := by
  obtain ⟨⟨hle, hstop⟩, rfl⟩ := splice_eq_some.mp h
  have hset := offset_set_add hi hi row
  have hend : ∀ rows : List (List (UInt32 × AttrValue)),
      offset rows rows.length = rows.flatten.length := offset_length
  have hset' := hend (rows.set i row)
  rw [List.length_set] at hset'
  rw [hset', hend] at hset
  simp only [List.length_append, List.length_take, List.length_drop]
  omega

theorem mem_splice {γ : Type} {v w new : List γ} {start stop : ℕ}
    (h : splice v start stop new = some w) {x : γ} (hx : x ∈ w) : x ∈ v ∨ x ∈ new := by
  obtain ⟨_, rfl⟩ := splice_eq_some.mp h
  rw [List.mem_append, List.mem_append] at hx
  obtain (hx | hx) | hx := hx
  · exact Or.inl (List.mem_of_mem_take hx)
  · exact Or.inr hx
  · exact Or.inl (List.mem_of_mem_drop hx)

theorem overwrite (h : t.Metered limit rows) {idx : ℕ} {span : NewSpan} {svc : Option UInt32}
    {attrs : List (UInt32 × AttrValue)} (ho : t.overwrite_at idx span svc attrs = some t')
    (hsmall : attrs.length < 2 ^ 32) (hmsg : span.status_message.utf8ByteSize ≤ limit)
    (hval : ∀ a ∈ attrs, a.2.str_bytes ≤ limit) : t'.Metered limit (rows.set idx attrs) := by
  obtain ⟨hidx, hids, hnames, hmessages, start, stop, hstart, hstop, hkeys, hvalues, hoffsets⟩ :=
    overwrite_at_charged ho
  have hi : idx < rows.length := by rw [h.row_count, ← h.names]; exact hidx
  have hle := (splice_eq_some.mp hkeys).1.1
  have hrow := h.row_length hi hstart hstop hle
  have hcount : t'.span_count = t.span_count := by rw [span_count, span_count, hids]
  refine { names := ?_, messages := ?_, row_count := ?_, keys := ?_, values := ?_,
           offsets := ?_, small := fun row hr => ?_, message_le := fun msg hm => ?_,
           value_le := fun v hv => ?_ }
  · rw [hnames, List.length_set, h.names, hcount]
  · rw [hmessages, List.length_set, h.messages, hcount]
  · rw [List.length_set, h.row_count, hcount]
  · exact splice_length hi h.keys hrow hkeys (List.length_map _)
  · exact splice_length hi h.values hrow hvalues (List.length_map _)
  · rw [hoffsets, hrow, h.offsets]
    exact offsets_set hi attrs _ _ fun j hj => shift_offset hi attrs hj
  · obtain hr | rfl := List.mem_or_eq_of_mem_set hr
    · exact h.small row hr
    · exact hsmall
  · rw [hmessages] at hm
    obtain hm | rfl := List.mem_or_eq_of_mem_set hm
    · exact h.message_le msg hm
    · exact hmsg
  · obtain hv | hv := mem_splice hvalues hv
    · exact h.value_le v hv
    · obtain ⟨a, ha, rfl⟩ := List.mem_map.mp hv
      exact hval a ha

theorem push (h : t.Metered limit rows) {span : NewSpan} {svc : Option UInt32}
    {attrs : List (UInt32 × AttrValue)} {span_id : SpanId} {idx : ℕ}
    (hp : (t.push_span span svc attrs).patch_children span_id idx = some t')
    (hsmall : attrs.length < 2 ^ 32) (hmsg : span.status_message.utf8ByteSize ≤ limit)
    (hval : ∀ a ∈ attrs, a.2.str_bytes ≤ limit) : t'.Metered limit (rows ++ [attrs]) := by
  obtain ⟨hids, hnames, hmessages, hkeys, hvalues, hoffsets⟩ := push_charged hp
  have hcount : t'.span_count = t.span_count + 1 := by
    rw [span_count, span_count, hids, List.length_append, List.length_singleton]
  refine { names := ?_, messages := ?_, row_count := ?_, keys := ?_, values := ?_,
           offsets := ?_, small := fun row hr => ?_, message_le := fun msg hm => ?_,
           value_le := fun v hv => ?_ }
  · rw [hnames, List.length_append, List.length_singleton, h.names, hcount]
  · rw [hmessages, List.length_append, List.length_singleton, h.messages, hcount]
  · rw [List.length_append, List.length_singleton, h.row_count, hcount]
  · rw [hkeys, List.length_append, List.length_map, h.keys, List.flatten_append,
      List.flatten_singleton, List.length_append]
  · rw [hvalues, List.length_append, List.length_map, h.values, List.flatten_append,
      List.flatten_singleton, List.length_append]
  · rw [hoffsets, offsets_append, h.offsets, List.map_append, List.map_singleton,
      List.length_append, List.length_map, h.keys]
  · rw [List.mem_append, List.mem_singleton] at hr
    obtain hr | rfl := hr
    · exact h.small row hr
    · exact hsmall
  · rw [hmessages, List.mem_append, List.mem_singleton] at hm
    obtain hm | rfl := hm
    · exact h.message_le msg hm
    · exact hmsg
  · rw [hvalues, List.mem_append] at hv
    obtain hv | hv := hv
    · exact h.value_le v hv
    · obtain ⟨a, ha, rfl⟩ := List.mem_map.mp hv
      exact hval a ha

/-- The last activity is not metered. -/
theorem touch (h : t.Metered limit rows) (now : UInt64) :
    Metered { t with last_activity_unix_nano := now } limit rows :=
  { h with }

/-- **The step lemma**, for a span whose uncharged strings keep the limit. -/
theorem insert (h : t.Metered limit rows) {span : NewSpan} {svc : Option UInt32}
    {I I' : Interner} {now : UInt64} {out : InsertOutcome}
    (hins : t.insert span svc I now = some (t', I', out))
    (hsmall : span.attributes.length < 2 ^ 32) (hmsg : span.status_message.utf8ByteSize ≤ limit)
    (hval : ∀ kv ∈ span.attributes, kv.2.str_bytes ≤ limit) :
    ∃ rows', t'.Metered limit rows' := by
  have hlen := lt_of_le_of_lt (intern_attrs_length_le I span.attributes) hsmall
  have hval' : ∀ a ∈ (intern_attrs I span.attributes).1, a.2.str_bytes ≤ limit := fun a ha => by
    obtain ⟨kv, hkv, e⟩ := intern_attrs_values I span.attributes a ha
    exact e ▸ hval kv hkv
  obtain ⟨_, ⟨_, _, _, ho⟩ | ⟨_, _, hp⟩⟩ := insert_cases hins
  · exact ⟨_, (h.touch now).overwrite ho hlen hmsg hval'⟩
  · exact ⟨_, (h.touch now).push hp hlen hmsg hval'⟩

end Metered

end Trace

/-! ## The charge -/

namespace Store

/-- The fixed part of the estimate alone. -/
theorem fixed_le_approx_bytes {t : Trace} {n : ℕ} (h : approx_bytes t = some n) :
    APPROX_SPAN_FIXED_BYTES * t.span_count ≤ n := by
  rw [approx_bytes, Option.bind_eq_bind, Option.bind_eq_some_iff] at h
  obtain ⟨w, hw, hn⟩ := h
  have hle := sum_le_of_mapM (c := fun _ => APPROX_SPAN_FIXED_BYTES) hw fun i _ n hi => by
    simp only [Option.bind_eq_bind, Option.bind_eq_some_iff, Option.pure_def,
      Option.some.injEq] at hi
    obtain ⟨_, _, _, _, rfl⟩ := hi
    omega
  obtain rfl := Option.some.inj hn
  rwa [List.map_const', List.sum_replicate, List.length_range, smul_eq_mul, Nat.mul_comm] at hle

/-- What a metered trace is charged, in terms of its names and its rows. -/
theorem metered_le_approx_bytes {t : Trace} {limit n : ℕ}
    {rows : List (List (UInt32 × AttrValue))} (h : t.Metered limit rows)
    (hn : approx_bytes t = some n) :
    APPROX_SPAN_FIXED_BYTES * t.span_count + (t.names.map (·.utf8ByteSize)).sum
      + APPROX_ATTR_FIXED_BYTES * rows.flatten.length ≤ n := by
  rw [approx_bytes, Option.bind_eq_bind, Option.bind_eq_some_iff] at hn
  obtain ⟨w, hw, hn⟩ := hn
  obtain rfl := Option.some.inj hn
  -- span by span: the slice that is counted is as long as the row
  have hle := sum_le_of_mapM (c := fun i => APPROX_SPAN_FIXED_BYTES
    + (t.names[i]?.map (·.utf8ByteSize)).getD 0
    + APPROX_ATTR_FIXED_BYTES * (rows[i]?.map List.length).getD 0) hw (by
      intro i hi n hn
      rw [List.mem_range, ← h.row_count] at hi
      simp only [Trace.name, Trace.attributes, Option.bind_eq_bind, Option.bind_eq_some_iff,
        Option.pure_def, Option.some.injEq] at hn
      obtain ⟨name, hname, attrs, ⟨start, hstart, stop, hstop, hattrs⟩, rfl⟩ := hn
      obtain ⟨⟨hle, hend⟩, rfl⟩ := slice_eq_some.mp hattrs
      have hrow := h.row_length hi hstart hstop hle
      rw [hname, List.getElem?_eq_getElem hi, List.length_drop, List.length_take,
        Nat.min_eq_left hend, hrow, Nat.mul_comm]
      exact Nat.le_refl _)
  -- and the walk over the indices is the walk over the names and the rows
  have hnames := map_range_getElem? (·.utf8ByteSize) 0 t.names
  have hrows := map_range_getElem? List.length 0 rows
  rw [h.names] at hnames
  rw [h.row_count] at hrows
  rw [List.sum_map_add, List.sum_map_add, List.sum_map_mul_left, hnames, hrows,
    List.map_const', List.sum_replicate, List.length_range, smul_eq_mul, Nat.mul_comm,
    ← List.length_flatten] at hle
  exact hle

/-- **The estimate is short of the contents by a constant factor**, where the
uncharged strings are bounded. -/
theorem content_le {t : Trace} {limit n : ℕ} {rows : List (List (UInt32 × AttrValue))}
    (h : t.Metered limit rows) (hn : approx_bytes t = some n) :
    t.content ≤ (limit + 1) * n := by
  have hcharge := metered_le_approx_bytes h hn
  -- what is not charged
  have hmessages : (t.status_messages.map (·.utf8ByteSize)).sum ≤ t.span_count * limit :=
    h.messages ▸ sum_map_le _ h.message_le
  have hvalues : (t.attr_values.map AttrValue.str_bytes).sum ≤ rows.flatten.length * limit :=
    h.values ▸ sum_map_le _ h.value_le
  have hfixed : t.span_count + rows.flatten.length + (t.names.map (·.utf8ByteSize)).sum ≤ n := by
    rw [APPROX_SPAN_FIXED_BYTES, APPROX_ATTR_FIXED_BYTES] at hcharge
    omega
  -- which is the limit for each span and each attribute, so as many times the charge
  have hstrings : t.span_count * limit + rows.flatten.length * limit ≤ n * limit := by
    rw [← Nat.add_mul]
    exact Nat.mul_le_mul_right limit (by omega)
  rw [Trace.content, h.values, Nat.add_mul, Nat.one_mul, Nat.mul_comm limit]
  omega

end Store

end Spanfall
