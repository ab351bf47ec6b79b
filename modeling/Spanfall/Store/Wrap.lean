/-
`Wrap.lean` -- where the offsets wrap.

No message carries `2 ^ 32` attributes, but a trace that is sent spans of
`2 ^ 16` attributes gets there span by span. [`Sole`] is a store with one trace,
by its rows; an insert into it writes one row as long as the row that it
overwrites ends below the limit ([`Sole.insert`]), however long the trace is. A
row that starts at the limit is written over the first one of all
([`Sole.overwrite_wrapped`]), and a row across the limit cannot be read at all
([`Sole.approx_bytes_across`]).
-/
import Spanfall.Store.CapHits

set_option autoImplicit false

namespace Spanfall

open Lib.Csr Lib.HashMap Lib.LastWrite Lib.Runs Lib.Vec

/-- How many attributes the rows in front of row `i` have. -/
def attrs_before (R : List NewSpan) (i : ℕ) : ℕ :=
  ((R.take i).map fun r => r.attributes.length).sum

theorem attrs_before_append (R R' : List NewSpan) (k : ℕ) :
    attrs_before (R ++ R') (R.length + k) = attrs_before R R.length + attrs_before R' k := by
  rw [attrs_before, attrs_before, attrs_before, List.take_length_add_append, List.map_append,
    List.sum_append, List.take_length]

theorem attrs_before_cons_one (r : NewSpan) (R : List NewSpan) :
    attrs_before (r :: R) 1 = r.attributes.length := by
  simp [attrs_before]

/-- With every key known nothing is left out of a row. -/
theorem kept_attrs_length {key : Interner} {attrs : List (String × AttrValue)}
    (h : ∀ kv ∈ attrs, (key.lookup kv.1).isSome) :
    (kept_attrs key attrs).length = attrs.length := by
  rw [kept_attrs, List.length_filterMap_eq_countP, List.countP_eq_length]
  intro kv hkv
  rw [Option.isSome_map]
  exact h kv hkv

/-! ## Behind the limit -/

namespace Columns

variable {t : Trace} {key svc : Interner} {R : List NewSpan} {i : ℕ}

/-- A row is read between its offsets modulo `2 ^ 32`, whatever stands there. -/
theorem attributes_mod (h : Columns t key svc R) (hi : i < R.length) :
    t.attributes i = slice t.attr_values (offset (attr_rows key R) i % 2 ^ 32)
      (offset (attr_rows key R) (i + 1) % 2 ^ 32) := by
  rw [Trace.attributes, h.attr_offset (by omega), h.attr_offset (by omega)]
  simp only [Option.bind_eq_bind, Option.bind_some, UInt32.toNat_ofNat']

/-- A row across the limit cannot be read. -/
theorem attributes_across (h : Columns t key svc R) (hi : i < R.length)
    (hstart : 0 < offset (attr_rows key R) i)
    (hlt : offset (attr_rows key R) i < 2 ^ 32)
    (hstop : offset (attr_rows key R) (i + 1) = 2 ^ 32) : t.attributes i = none := by
  rw [h.attributes_mod hi, hstop, Nat.mod_self, Nat.mod_eq_of_lt hlt, slice, if_neg]
  omega

/-- A shift by nothing, in `i64` and back. -/
theorem shift_zero (offsets : List UInt32) (i : ℕ) {delta : ℤ} (h : delta = 0) :
    offsets.take i ++ (offsets.drop i).map (fun off => UInt32.ofInt ((off.toNat : ℤ) + delta))
      = offsets := by
  have hid : ∀ off : UInt32, UInt32.ofInt ((off.toNat : ℤ) + delta) = off := by
    intro off
    have hlt := off.toNat_lt
    rw [← UInt32.toNat_inj, UInt32.ofInt, UInt32.toNat_ofNat', h]
    omega
  simp only [hid, List.map_id', List.take_append_drop]

/-- A row with one attribute that starts at the limit shows the first one of all. -/
theorem attributes_wrapped (h : Columns t key svc R) {first : NewSpan} {R' : List NewSpan}
    {a : String × AttrValue} {as : List (String × AttrValue)} (hR : R = first :: R')
    (hfirst : first.attributes = a :: as) (ha : (key.lookup a.1).isSome) (hi : i < R.length)
    (hwrap : offset (attr_rows key R) i = 2 ^ 32)
    (hone : offset (attr_rows key R) (i + 1) = 2 ^ 32 + 1) : t.attributes i = some [a.2] := by
  obtain ⟨id, hid⟩ := Option.isSome_iff_exists.mp ha
  have hmod : (2 ^ 32 + 1) % 2 ^ 32 = 1 := rfl
  rw [h.attributes_mod hi, hwrap, hone, Nat.mod_self, hmod, h.attr_values, hR]
  simp [slice, attr_rows, kept_attrs, hfirst, hid]

/-- **An overwrite behind the limit** of a row with one attribute, by the span
that is there: it is spliced in at the head of the first row. -/
theorem overwrite_wrapped (h : Columns t key svc R) {span first : NewSpan} {R' : List NewSpan}
    {a b : String × AttrValue} {as : List (String × AttrValue)} (hR : R = first :: R')
    (hfirst : first.attributes = a :: as) (ha : (key.lookup a.1).isSome)
    (hspan : span.attributes = [b]) (hb : (key.lookup b.1).isSome) (hi : R[i]? = some span)
    (hwrap : offset (attr_rows key R) i = 2 ^ 32) :
    ∃ t', t.overwrite_at i span (span.service_name.bind svc.lookup)
        (kept_attrs key span.attributes) = some t'
      ∧ Columns t' key svc ({ first with attributes := b :: as } :: R') := by
  obtain ⟨ida, hida⟩ := Option.isSome_iff_exists.mp ha
  obtain ⟨idb, hidb⟩ := Option.isSome_iff_exists.mp hb
  have hlt := (List.getElem?_eq_some_iff.mp hi).1
  have hrow : kept_attrs key span.attributes = [(idb, b.2)] := by
    rw [hspan]
    simp [kept_attrs, hidb]
  have hold : kept_attrs key first.attributes = (ida, a.2) :: kept_attrs key as := by
    rw [hfirst]
    simp [kept_attrs, hida]
  have hnew : kept_attrs key (b :: as) = (idb, b.2) :: kept_attrs key as := by
    simp [kept_attrs, hidb]
  -- the row is read between zero and one
  have hstart : t.attr_offsets[i]? = some 0 := by
    rw [h.attr_offset (by omega), hwrap]
    rfl
  have hstop : t.attr_offsets[i + 1]? = some 1 := by
    have hlen : i < (attr_rows key R).length := by rwa [attr_rows, List.length_map]
    have hthis : (attr_rows key R)[i] = [(idb, b.2)] := by
      obtain ⟨_, hget⟩ := List.getElem?_eq_some_iff.mp hi
      simp only [attr_rows, List.getElem_map, hget, hrow]
    have hone : 2 ^ 32 + [(idb, b.2)].length = 4294967297 := rfl
    rw [h.attr_offset (by omega), offset_succ hlen, hwrap, hthis, hone]
    rfl
  -- the columns say what the span says already
  have column : ∀ {γ : Type} {v : List γ} {f : NewSpan → γ}, v = R.map f →
      setAt v i (f span) = some v := fun hv =>
    setAt_self (by rw [hv, List.getElem?_map, hi, Option.map_some])
  -- what the splice does to either dense array
  have dense : ∀ {γ : Type} {v : List γ} {f : UInt32 × AttrValue → γ},
      v = ((attr_rows key R).map (List.map f)).flatten →
      splice v 0 1 [f (idb, b.2)] = some ((attr_rows key
        ({ first with attributes := b :: as } :: R')).map (List.map f)).flatten :=
    fun {γ v f} hv => by
      rw [hv, hR]
      simp [splice, attr_rows, hold, hnew]
  refine ⟨{ t with
    attr_keys := ((attr_rows key ({ first with attributes := b :: as } :: R')).map
      (List.map Prod.fst)).flatten
    attr_values := ((attr_rows key ({ first with attributes := b :: as } :: R')).map
      (List.map Prod.snd)).flatten }, ?_, ?_⟩
  · have hkeys := dense h.attr_keys
    have hvalues := dense h.attr_values
    simp only [Trace.overwrite_at, column h.names, column h.start_times, column h.end_times,
      column h.status_messages, column h.status_codes, column h.unknown_services,
      column h.service_name_ids, hstart, hstop, hrow, Option.bind_eq_bind, Option.bind_some,
      Option.pure_def, List.map_cons, List.map_nil, UInt32.toNat_zero, UInt32.toNat_one, hkeys,
      hvalues]
    -- the row is as long as before, so no offset moves
    have hdelta : (([(idb, b.2)].length : ℤ) - ((1 - 0 : ℕ) : ℤ)) = 0 := rfl
    rw [shift_zero _ _ hdelta]
  · have hlengths : (attr_rows key R).map List.length
        = (attr_rows key ({ first with attributes := b :: as } :: R')).map List.length := by
      simp [hR, attr_rows, hold, hnew]
    subst hR
    refine { h with attr_keys := rfl, attr_values := rfl, attr_offsets := ?_ }
    rw [← offsets_congr hlengths]
    exact h.attr_offsets

end Columns

/-- The insert of a span behind the limit that is there already: the trace is
then what it would be had the first row been sent again with its attribute. -/
theorem Trace.Holds.insert_wrapped {t : Trace} {key svc : Interner} {arrived : List NewSpan}
    {ks : List String} (h : t.Holds key svc arrived) (hkey : key.Holds ks)
    (hshown : ∀ r ∈ arrived, ∀ kv ∈ r.attributes, kv.1 ∈ ks ∧ (key.lookup kv.1).isSome)
    {span first : NewSpan} {R' : List NewSpan} {i : ℕ} {a b : String × AttrValue}
    {as : List (String × AttrValue)} (hR : lastWrites NewSpan.span_id arrived = first :: R')
    (hfirst : first.attributes = a :: as) (hspan : span.attributes = [b])
    (hi : (lastWrites NewSpan.span_id arrived)[i]? = some span)
    (hwrap : offset (attr_rows key (lastWrites NewSpan.span_id arrived)) i = 2 ^ 32)
    (now : UInt64) :
    ∃ t' out, t.insert span (span.service_name.bind svc.lookup) key now
        = some (t', (intern_attrs key span.attributes).2, out)
      ∧ t'.Holds (intern_attrs key span.attributes).2 svc
          (arrived ++ [{ first with attributes := b :: as }]) := by
  obtain ⟨hkey', hcap, hattrs⟩ := intern_attrs_spec hkey span.attributes
  set key' := (intern_attrs key span.attributes).2 with hkey'def
  have hsame : ∀ r ∈ arrived, ∀ kv ∈ r.attributes, key'.lookup kv.1 = key.lookup kv.1 :=
    fun r hr kv hkv => hkey.lookup_stable hkey' hcap (hshown r hr kv hkv).1
  have hcols : Columns { t with last_activity_unix_nano := now } key' svc
      (lastWrites NewSpan.span_id arrived) :=
    ((h.congr_interners hsame fun _ _ _ _ => rfl).columns).touch now
  -- both spans are among the arrivals, so their keys are known
  have hfirst_in : first ∈ arrived :=
    mem_of_mem_lastWrites (hR ▸ List.mem_cons_self : first ∈ lastWrites NewSpan.span_id arrived)
  have hspan_in : span ∈ arrived := mem_of_mem_lastWrites (List.mem_of_getElem? hi)
  have ha : (key'.lookup a.1).isSome := by
    have hin : a ∈ first.attributes := by rw [hfirst]; exact List.mem_cons_self
    rw [hsame first hfirst_in a hin]
    exact (hshown first hfirst_in a hin).2
  have hb : (key'.lookup b.1).isSome := by
    have hin : b ∈ span.attributes := by rw [hspan]; exact List.mem_singleton_self b
    rw [hsame span hspan_in b hin]
    exact (hshown span hspan_in b hin).2
  have hwrap' : offset (attr_rows key' (lastWrites NewSpan.span_id arrived)) i = 2 ^ 32 := by
    rw [Columns.attr_rows_congr fun r hr => hsame r (mem_of_mem_lastWrites hr)]
    exact hwrap
  obtain ⟨t', ho, hcols'⟩ := hcols.overwrite_wrapped hR hfirst ha hspan hb hi hwrap'
  have hl : t.span_index.lookup span.span_id = some i := by
    rw [h.links.index, h.columns.span_ids, List.getElem?_map, hi, Option.map_some]
  have hins : t.insert span (span.service_name.bind svc.lookup) key now
      = some (t', key', { local_idx := i, is_duplicate := true }) := by
    simp only [Trace.insert, hl, hattrs, ← hkey'def, ho, Option.bind_eq_bind, Option.bind_some,
      Option.pure_def]
  -- the links are those of the first arrivals, and the first row has arrived before
  have hin : ∀ r ∈ arrived, r.span_id ∈ arrived.map NewSpan.span_id := fun r hr =>
    List.mem_map_of_mem hr
  have hlinks := h.links.insert hins
  rw [firsts, firstWrites_absorb fun y hy => by
    rw [List.mem_singleton.mp hy]
    exact hin span hspan_in] at hlinks
  refine ⟨t', _, hins, ?_, ?_⟩
  · rw [lastWrites_snoc, upsert_of_getElem? (i := 0) (lastWrites_nodup arrived) (by rw [hR]; rfl),
      hR]
    exact hcols'
  · rw [firsts, firstWrites_absorb fun y hy => by
      rw [List.mem_singleton.mp hy]
      exact hin first hfirst_in]
    exact hlinks

/-! ## A store with one trace -/

namespace Store

/-- The store holds one trace, of the rows `R`, and knows two keys at most. The
rows are those of some history, which behind the limit is not the one that the
store was sent. -/
def Sole (s : Store) (R : List NewSpan) : Prop :=
  ∃ ks ss arrived, s.Holds ks ss arrived ∧ ks ⊆ ["a", "b"]
    ∧ (∀ id, id ≠ tid 1 → arrived id = [])
    ∧ lastWrites NewSpan.span_id (arrived (tid 1)) = R

variable {s s' : Store} {R R' : List NewSpan} {span : NewSpan} {i : ℕ}

theorem new_sole (m : ℕ) : Sole (new m) [] :=
  ⟨[], [], fun _ => [], new_holds m, List.nil_subset _, fun _ _ => rfl, rfl⟩

theorem eraseDups_of_few {ks : List String} (hfew : ks ⊆ ["a", "b"]) :
    ks.eraseDups.length ≤ GLOBAL_INTERNER_CAP := by
  have hsub : ks.eraseDups ⊆ ["a", "b"] := fun j hj => hfew (List.mem_eraseDups.mp hj)
  have hle := ((nodup_eraseDups ks).subperm hsub).length_le
  exact hle.trans (by decide)

/-- Two keys are never refused. -/
theorem known_of_few {key : Interner} {ks : List String} (h : key.Holds ks)
    (hcap : key.cap = GLOBAL_INTERNER_CAP) (hfew : ks ⊆ ["a", "b"]) {k : String} (hk : k ∈ ks) :
    (key.lookup k).isSome := by
  rw [h.lookup_isSome, hcap, accepted, List.take_of_length_le (eraseDups_of_few hfew)]
  exact List.mem_eraseDups.mpr hk

/-- So nothing of a span is left out. -/
theorem Holds.restrict_attrs_few {ks ss : List String} {arrived : TraceId → List NewSpan}
    (h : s.Holds ks ss arrived) (hfew : ks ⊆ ["a", "b"]) {id : TraceId} {r : NewSpan}
    (hr : r ∈ arrived id) :
    restrict_attrs (accepted GLOBAL_INTERNER_CAP ks) r.attributes = r.attributes := by
  refine List.filter_eq_self.mpr fun kv hkv => decide_eq_true ?_
  rw [← h.key_cap, ← h.key.lookup_isSome]
  exact known_of_few h.key h.key_cap hfew ((h.shown id r hr).1 kv hkv)

/-- So a row starts behind all attributes of the rows in front of it. -/
theorem Holds.offset_eq {ks ss : List String} {arrived : TraceId → List NewSpan}
    (h : s.Holds ks ss arrived) (hfew : ks ⊆ ["a", "b"]) (id : TraceId) (i : ℕ) :
    offset (attr_rows s.key_interner (lastWrites NewSpan.span_id (arrived id))) i
      = attrs_before (lastWrites NewSpan.span_id (arrived id)) i := by
  rw [offset_eq_sum, attr_rows, ← List.map_take, List.map_map, attrs_before]
  refine congrArg List.sum (List.map_congr_left fun r hr => kept_attrs_length fun kv hkv => ?_)
  have hin := mem_of_mem_lastWrites (List.mem_of_mem_take hr)
  exact known_of_few h.key h.key_cap hfew ((h.shown id r hin).1 kv hkv)

/-- Spans sent to the one trace. -/
def sends (spans : List NewSpan) : List Event := spans.map fun r => .insert (tid 1) r 0

theorem sent_sends (spans : List NewSpan) : sent (sends spans) = spans.map fun r => (tid 1, r) := by
  rw [sent, sends, List.flatMap_map]
  exact List.flatMap_pure_eq_map _ _

namespace Sole

/-- What an insert adds to a history of one trace. -/
theorem of_holds {ks ss : List String} {arrived : TraceId → List NewSpan} {more : NewSpan}
    (hks : ks ⊆ ["a", "b"]) (hothers : ∀ id, id ≠ tid 1 → arrived id = [])
    (hspan : span.attributes.map Prod.fst ⊆ ["a", "b"])
    (h : s'.Holds (ks ++ span.attributes.map Prod.fst) ss fun id =>
      if id = tid 1 then arrived id ++ [more] else arrived id) :
    Sole s' (upsert NewSpan.span_id (lastWrites NewSpan.span_id (arrived (tid 1))) more) := by
  refine ⟨_, _, _, h, List.append_subset.mpr ⟨hks, hspan⟩, fun id hid => ?_, ?_⟩
  · rw [if_neg hid, hothers id hid]
  · rw [if_pos rfl, lastWrites_snoc]

/-- **An insert writes its row** if the row that it overwrites ends below the
limit. -/
theorem insert (h : Sole s R) (hspan : span.attributes.map Prod.fst ⊆ ["a", "b"])
    (hend : ∀ i, (R.map (·.span_id))[i]? = some span.span_id → attrs_before R (i + 1) < 2 ^ 32)
    (now : UInt64) :
    ∃ s', s.step (.insert (tid 1) span now) = some s'
      ∧ Sole s' (upsert NewSpan.span_id R span) := by
  obtain ⟨ks, ss, arrived, hh, hks, hothers, rfl⟩ := h
  obtain ⟨s', out, hins, hh'⟩ := hh.insert (tid 1) span now fun i hi => by
    rw [hh.offset_eq hks]
    exact hend i hi
  refine ⟨s', ?_, of_holds hks hothers hspan hh'⟩
  rw [step, hins]
  rfl

/-- An insert of a new id. -/
theorem push (h : Sole s R) (hspan : span.attributes.map Prod.fst ⊆ ["a", "b"])
    (hnew : span.span_id ∉ R.map (·.span_id)) (now : UInt64) :
    ∃ s', s.step (.insert (tid 1) span now) = some s' ∧ Sole s' (R ++ [span]) := by
  obtain ⟨s', hs', hsole⟩ := h.insert hspan (fun i hi =>
    absurd (List.mem_of_getElem? hi) hnew) now
  rw [upsert_of_notMem hnew] at hsole
  exact ⟨s', hs', hsole⟩

theorem nodup (h : Sole s R) : (R.map (·.span_id)).Nodup := by
  obtain ⟨_, _, _, _, _, _, rfl⟩ := h
  exact lastWrites_nodup _

/-- An insert of a resident id. -/
theorem overwrite (h : Sole s R) (hspan : span.attributes.map Prod.fst ⊆ ["a", "b"])
    (hi : (R.map (·.span_id))[i]? = some span.span_id) (hend : attrs_before R (i + 1) < 2 ^ 32)
    (now : UInt64) :
    ∃ s', s.step (.insert (tid 1) span now) = some s' ∧ Sole s' (R.set i span) := by
  obtain ⟨s', hs', hsole⟩ := h.insert hspan (fun j hj => by
    rw [index_unique h.nodup hj hi]
    exact hend) now
  rw [upsert_of_getElem? h.nodup hi] at hsole
  exact ⟨s', hs', hsole⟩

/-- **An insert of a resident row that starts at the limit** leaves it as it is
and writes its attribute over the head of the first row. -/
theorem overwrite_wrapped {first : NewSpan} {a b : String × AttrValue}
    {as : List (String × AttrValue)} (h : Sole s (first :: R))
    (hspan : span.attributes.map Prod.fst ⊆ ["a", "b"]) (hfirst : first.attributes = a :: as)
    (hattr : span.attributes = [b])
    (hi : (first :: R)[i]? = some span) (hwrap : attrs_before (first :: R) i = 2 ^ 32)
    (now : UInt64) :
    ∃ s', s.step (.insert (tid 1) span now) = some s'
      ∧ Sole s' ({ first with attributes := b :: as } :: R) := by
  obtain ⟨ks, ss, arrived, hh, hks, hothers, hR⟩ := h
  have hfirst_in : first ∈ arrived (tid 1) := mem_of_mem_lastWrites (by
    rw [hR]
    exact List.mem_cons_self)
  obtain ⟨_, _, hid⟩ := intern_service_spec hh.service span.service_name
  have hknown : ∀ r ∈ arrived (tid 1), ∀ kv ∈ r.attributes,
      kv.1 ∈ ks ∧ (s.key_interner.lookup kv.1).isSome := fun r hr kv hkv => by
    have hin := (hh.shown (tid 1) r hr).1 kv hkv
    exact ⟨hin, known_of_few hh.key hh.key_cap hks hin⟩
  obtain ⟨t', o, hins, ht'⟩ := (hh.entry (tid 1) now span.service_name).insert_wrapped hh.key
    hknown hR hfirst hattr (by rw [hR]; exact hi) (by rw [hh.offset_eq hks, hR]; exact hwrap) now
  rw [← hid] at hins
  -- nothing of the row that is written over is new to the interners
  have hshown : Shown (ks ++ span.attributes.map Prod.fst) (ss ++ span.service_name.toList)
      [{ first with attributes := b :: as }] := by
    intro r hr
    obtain rfl := List.mem_singleton.mp hr
    refine ⟨fun kv hkv => ?_, fun n hn => ?_⟩
    · rcases List.mem_cons.mp hkv with rfl | hkv
      · rw [hattr]
        exact List.mem_append_right _ (List.mem_singleton_self _)
      · refine List.mem_append_left _ ((hh.shown (tid 1) first hfirst_in).1 kv ?_)
        rw [hfirst]
        exact List.mem_cons_of_mem _ hkv
    · exact List.mem_append_left _ ((hh.shown (tid 1) first hfirst_in).2 n hn)
  obtain ⟨s', out, hcall, hh'⟩ :=
    hh.insert_of_trace hshown (List.cons_ne_nil _ _) ⟨t', o, hins, ht'⟩
  have hsole := of_holds hks hothers hspan hh'
  rw [upsert_of_getElem? (i := 0) (lastWrites_nodup _) (by rw [hR]; rfl), hR, List.set_cons_zero]
    at hsole
  refine ⟨s', ?_, hsole⟩
  rw [step, hcall]
  rfl

/-- Spans of new ids, one insert after the other. -/
theorem pushes {spans : List NewSpan} (h : Sole s R)
    (hspans : ∀ r ∈ spans, r.attributes.map Prod.fst ⊆ ["a", "b"])
    (hnodup : ((R ++ spans).map (·.span_id)).Nodup) :
    ∃ s', exec step (sends spans) s = some s' ∧ Sole s' (R ++ spans) := by
  induction spans generalizing s R with
  | nil => exact ⟨s, rfl, by rwa [List.append_nil]⟩
  | cons r spans ih =>
    obtain ⟨hr, hspans⟩ := List.forall_mem_cons.mp hspans
    rw [List.append_cons] at hnodup ⊢
    have hR : ((R ++ [r]).map (·.span_id)).Nodup := by
      rw [List.map_append] at hnodup
      exact List.Nodup.of_append_left hnodup
    have hnew : r.span_id ∉ R.map (·.span_id) := (nodup_snoc hR).2
    obtain ⟨s₁, hs₁, h₁⟩ := h.push hr hnew 0
    obtain ⟨s', hs', h'⟩ := ih h₁ hspans hnodup
    refine ⟨s', ?_, h'⟩
    rw [sends, List.map_cons, exec_cons, hs₁]
    exact hs'

/-! ### Reading -/

/-- The trace and its rows. -/
theorem trace (h : Sole s R) (hne : R ≠ []) :
    ∃ t, s.trace (tid 1) = some t ∧ Columns t s.key_interner s.service_interner R
      ∧ ∀ i, offset (attr_rows s.key_interner R) i = attrs_before R i := by
  obtain ⟨ks, ss, arrived, hh, hks, _, rfl⟩ := h
  have hsent : arrived (tid 1) ≠ [] := fun hnil => hne (by rw [hnil, lastWrites_nil])
  obtain ⟨t, ht⟩ := Option.isSome_iff_exists.mp ((hh.isSome_iff (tid 1)).mpr hsent)
  exact ⟨t, ht, (hh.resident _ t ht).columns, hh.offset_eq hks _⟩

/-- What a row with one attribute shows that starts at the limit. -/
theorem attributes_wrapped {first : NewSpan} {a : String × AttrValue}
    {as : List (String × AttrValue)} (h : Sole s (first :: R)) (hfirst : first.attributes = a :: as)
    {t : Trace} (ht : s.trace (tid 1) = some t) (hi : i < (first :: R).length)
    (hwrap : attrs_before (first :: R) i = 2 ^ 32)
    (hone : attrs_before (first :: R) (i + 1) = 2 ^ 32 + 1) : t.attributes i = some [a.2] := by
  obtain ⟨ks, ss, arrived, hh, hks, _, hR⟩ := h
  have hin : first ∈ arrived (tid 1) := mem_of_mem_lastWrites (by
    rw [hR]
    exact List.mem_cons_self)
  have ha : a.1 ∈ ks := (hh.shown (tid 1) first hin).1 a (by
    rw [hfirst]
    exact List.mem_cons_self)
  have hoffset := hh.offset_eq hks (tid 1)
  have hcolumns := (hh.resident _ t ht).columns
  rw [hR] at hoffset hcolumns
  exact hcolumns.attributes_wrapped rfl hfirst (known_of_few hh.key hh.key_cap hks ha) hi
    ((hoffset i).trans hwrap) ((hoffset (i + 1)).trans hone)

/-- No other trace is resident. -/
theorem only (h : Sole s R) {id : TraceId} (hid : (s.trace id).isSome) : id = tid 1 := by
  obtain ⟨_, _, arrived, hh, _, hothers, _⟩ := h
  by_contra hne
  exact (hh.isSome_iff id).mp hid (hothers id hne)

theorem trace_count_le (h : Sole s R) : s.trace_count ≤ 1 := by
  rw [trace_count, len, Finset.card_le_one]
  intro a ha b hb
  have hres : ∀ {id}, id ∈ s.traces.keys → id = tid 1 := fun hid =>
    h.only (Finmap.lookup_isSome.mpr (Finmap.mem_keys.mp hid))
  rw [hres ha, hres hb]

theorem attr_keys_length (h : Sole s R) {t : Trace} (ht : s.trace (tid 1) = some t) :
    t.attr_keys.length = attrs_before R R.length := by
  obtain ⟨ks, ss, arrived, hh, hks, _, rfl⟩ := h
  rw [(hh.resident _ t ht).columns.attr_keys_length, ← offset_length, attr_rows, List.length_map,
    ← attr_rows, hh.offset_eq hks]

/-- A sweep below the limit does nothing. -/
theorem sweep (h : Sole s R) (hsmall : attrs_before R R.length < 2 ^ 32) (order : TraceOrder) :
    s.evict_over_budget order = some s := by
  refine evict_of_single (fun id t ht => ?_) h.trace_count_le
  obtain rfl := h.only (Option.isSome_of_eq_some ht)
  have hlen := h.attr_keys_length ht
  obtain ⟨ks, ss, arrived, hh, _⟩ := h
  rw [(hh.resident _ t ht).columns.approx_bytes (hlen ▸ hsmall)]
  rfl

/-- **A row across the limit has no estimate.** -/
theorem approx_bytes_across (h : Sole s R) (hi : i < R.length) (hstart : 0 < attrs_before R i)
    (hlt : attrs_before R i < 2 ^ 32) (hstop : attrs_before R (i + 1) = 2 ^ 32) :
    ∃ t, s.trace (tid 1) = some t ∧ approx_bytes t = none := by
  obtain ⟨t, ht, hcolumns, hoffset⟩ := h.trace (List.ne_nil_of_length_pos (by omega))
  refine ⟨t, ht, Option.not_isSome_iff_eq_none.mp fun hsome => ?_⟩
  obtain ⟨b, hb⟩ := Option.isSome_iff_exists.mp hsome
  rw [approx_bytes, Option.bind_eq_bind, Option.bind_eq_some_iff] at hb
  obtain ⟨charges, hcharges, _⟩ := hb
  have hcount : t.span_count = R.length := by
    rw [Trace.span_count, hcolumns.span_ids, List.length_map]
  have hrow := isSome_of_mapM hcharges i (by rw [hcount]; exact List.mem_range.mpr hi)
  rw [hcolumns.attributes_across hi (by rwa [hoffset]) (by rwa [hoffset]) (by rwa [hoffset])]
    at hrow
  cases hname : t.name i <;> rw [hname] at hrow <;> cases hrow

end Sole

/-! ## Spans of a message's size -/

/-- Span `i` of the runs below, with `w` attributes. -/
def filler (w i : ℕ) : NewSpan :=
  { Trace.span 1 none "a" with
    span_id := nth_span_id i, attributes := List.replicate w ("a", .bool true) }

/-- The first `n` of them. -/
def fillers (w n : ℕ) : List NewSpan := (List.range n).map (filler w)

/-- Span `i`, with one attribute of another key. -/
def narrow (i : ℕ) : NewSpan :=
  { Trace.span 1 none "b" with span_id := nth_span_id i, attributes := [("b", .bool false)] }

variable {w n : ℕ}

theorem filler_keys (w i : ℕ) : (filler w i).attributes.map Prod.fst ⊆ ["a", "b"] := by
  intro k hk
  obtain ⟨kv, hkv, rfl⟩ := List.mem_map.mp hk
  rw [(List.mem_replicate.mp hkv).2]
  exact List.mem_cons_self

theorem narrow_keys (i : ℕ) : (narrow i).attributes.map Prod.fst ⊆ ["a", "b"] := by
  intro k hk
  obtain rfl := List.mem_singleton.mp hk
  exact List.mem_cons_of_mem _ (List.mem_singleton_self _)

theorem fillers_keys : ∀ r ∈ fillers w n, r.attributes.map Prod.fst ⊆ ["a", "b"] := by
  intro r hr
  obtain ⟨i, _, rfl⟩ := List.mem_map.mp hr
  exact filler_keys w i

theorem fillers_attributes {r : NewSpan} (hr : r ∈ fillers w n) : r.attributes.length = w := by
  obtain ⟨i, _, rfl⟩ := List.mem_map.mp hr
  exact List.length_replicate ..

theorem fillers_length (w n : ℕ) : (fillers w n).length = n := by
  rw [fillers, List.length_map, List.length_range]

theorem fillers_succ (w n : ℕ) :
    fillers w (n + 1) = filler w 0 :: (List.range n).map fun i => filler w (i + 1) := by
  rw [fillers, List.range_succ_eq_map, List.map_cons, List.map_map]
  rfl

theorem fillers_ids (w n : ℕ) :
    (fillers w n).map (·.span_id) = (List.range n).map nth_span_id := by
  rw [fillers, List.map_map]
  rfl

/-- Filler `i` starts behind as many rows of `w`. -/
theorem attrs_before_fillers (h : i ≤ n) : attrs_before (fillers w n) i = i * w := by
  have htake : (fillers w n).take i = fillers w i := by
    rw [fillers, fillers, ← List.map_take, List.take_range, Nat.min_eq_left h]
  rw [attrs_before, htake, List.map_congr_left fun r hr => fillers_attributes hr, List.map_const',
    List.sum_replicate, fillers_length, smul_eq_mul]

/-- A narrow span behind the fillers starts at their end. -/
theorem attrs_before_narrow (w n : ℕ) :
    attrs_before (fillers w n ++ [narrow n]) n = n * w
      ∧ attrs_before (fillers w n ++ [narrow n]) (n + 1) = n * w + 1 := by
  have happend := attrs_before_append (fillers w n) [narrow n]
  rw [fillers_length, attrs_before_fillers (Nat.le_refl n)] at happend
  exact ⟨happend 0, happend 1⟩

theorem fillers_narrow_ids (w n : ℕ) :
    (fillers w n ++ [narrow n]).map (·.span_id) = (List.range (n + 1)).map nth_span_id := by
  rw [List.map_append, fillers_ids, List.range_succ, List.map_append]
  rfl

theorem nth_span_ids_nodup (h : n ≤ 2 ^ 64) : ((List.range n).map nth_span_id).Nodup := by
  refine List.nodup_range.map_on fun i hi j hj hsame => nth_span_id_injective ?_ ?_ hsame
  · exact (List.mem_range.mp hi).trans_le h
  · exact (List.mem_range.mp hj).trans_le h

end Store

end Spanfall
