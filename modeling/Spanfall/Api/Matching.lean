/-
`Matching.lean` -- the filter, without ids and slices.

A span's record is what a reader of the trace would write down of it: its name,
its service if there is one, its status, its times and its attributes as pairs
of strings and values ([`SpanRecord`]). A query is its terms with the keys as
text ([`QueryTerm`]), and whether a term holds of a record is said in these
words alone ([`QueryTerm.holds`]). The scan over interned ids and CSR slices
finds the same spans ([`filter_agrees`]), as long as every key of the query is
known and the trace is below the attribute limit.
-/
import Spanfall.Api.Isolation
import Spanfall.Api.Reorder

set_option autoImplicit false

namespace Spanfall

open Lib.HashMap Lib.LastWrite Lib.Runs Lib.Vec

/-! ## Records and terms -/

/-- What a filter can ask of a span. -/
structure SpanRecord where
  name : String
  service : Option String
  status_code : Int32
  start_time_unix_nano : UInt64
  end_time_unix_nano : UInt64
  attributes : List (String × AttrValue)
  deriving DecidableEq

/-- A term of a query, its key as it was typed. -/
inductive QueryTerm where
  | service (op : Op) (want : String)
  | status (op : Op) (want : Int32)
  | duration (op : Op) (want : UInt64)
  | attr (op : Op) (key raw : String)
  | substring (needle : String)
  deriving DecidableEq

/-- The record of a span, as far as `keys` and `services` are known. -/
def record_of (keys services : List String) (span : NewSpan) : SpanRecord where
  name := span.name
  service := span.service_name.filter fun n => decide (n ∈ services)
  status_code := span.status_code
  start_time_unix_nano := span.start_time_unix_nano
  end_time_unix_nano := span.end_time_unix_nano
  attributes := Store.restrict_attrs keys span.attributes

/-- Whether a term holds of a record. -/
def QueryTerm.holds (r : SpanRecord) : QueryTerm → Bool
  | .service .eq want => decide (r.service = some want)
  | .service .ne want => decide (r.service ≠ some want)
  | .service _ _ => false
  | .status .eq want => decide (r.status_code = want)
  | .status .ne want => decide (r.status_code ≠ want)
  | .status _ _ => false
  | .duration op want =>
    decide (r.start_time_unix_nano.toNat ≤ r.end_time_unix_nano.toNat)
      && cmp_nat op (r.end_time_unix_nano.toNat - r.start_time_unix_nano.toNat) want.toNat
  | .attr op key raw =>
    (r.attributes.any fun kv => decide (kv.1 = key) && attr_matches op kv.2 raw)
      || decide (op = .ne) && !r.attributes.any fun kv => decide (kv.1 = key)
  | .substring needle =>
    str_contains r.name needle || r.attributes.any fun kv => attr_contains kv.2 needle

/-- The term as a store reads it, the key looked up. -/
def QueryTerm.resolve (s : Store) : QueryTerm → Term
  | .service op want => .service op want
  | .status op want => .status op want
  | .duration op want => .duration op want
  | .attr op key raw => .attr op (s.attribute_key_id key) raw
  | .substring needle => .substring needle

/-- `qs` are the terms of the query, in whatever store it is read. -/
def Terms (query : String) (qs : List QueryTerm) : Prop :=
  ∀ s, (parse_query query s).1 = qs.map (QueryTerm.resolve s)

/-- Every key that the terms name is known to the store. -/
def KeysKnown (s : Store) (qs : List QueryTerm) : Prop :=
  ∀ op key raw, .attr op key raw ∈ qs → (s.attribute_key_id key).isSome

/-- The record of row `i`, through the accessors. -/
def Store.span_record (self : Store) (t : Trace) (i : ℕ) : Option SpanRecord := do
  let service_name_id ← t.service_name_id i
  let attribute_keys ← t.attribute_keys i
  let attributes ← t.attributes i
  return { name := ← t.name i
           service := ← service_name_id.mapM self.service_name
           status_code := ← t.status_code i
           start_time_unix_nano := ← t.start_time_unix_nano i
           end_time_unix_nano := ← t.end_time_unix_nano i
           attributes := (← attribute_keys.mapM self.attribute_key).zip attributes }

/-- A key that no term looks up in vain is known. -/
theorem KeysKnown.of_parse {s : Store} {query : String} {qs : List QueryTerm} (h : Terms query qs)
    (hknown : ∀ op raw, .attr op none raw ∉ (parse_query query s).1) : KeysKnown s qs := by
  intro op key raw hq
  by_contra hnone
  refine hknown op raw ?_
  rw [h s, List.mem_map]
  refine ⟨_, hq, ?_⟩
  rw [QueryTerm.resolve, Option.not_isSome_iff_eq_none.mp hnone]

/-! ## One term -/

section Terms

variable {s : Store} {t : Trace} {i : ℕ} {ks keys services : List String} {span : NewSpan}

/-- A text is a term with its key, or no term in any store. -/
theorem parse_term_resolves (text : String) (starts_quoted : Bool) :
    (∃ q : QueryTerm, ∀ s, parse_term text starts_quoted s = .ok (q.resolve s))
      ∨ ∃ raw, ∀ s, parse_term text starts_quoted s = .error raw := by
  obtain ⟨r, hparse, hplain⟩ | ⟨op, key, raw, _, hparse⟩ := parse_term_cases text starts_quoted
  · cases r with
    | error raw => exact Or.inr ⟨raw, hparse⟩
    | ok term =>
      left
      cases term with
      | service op want => exact ⟨.service op want, hparse⟩
      | status op want => exact ⟨.status op want, hparse⟩
      | duration op want => exact ⟨.duration op want, hparse⟩
      | attr op key_id raw => exact absurd rfl (hplain op key_id raw)
      | substring needle => exact ⟨.substring needle, hparse⟩
  · exact Or.inl ⟨.attr op key raw, hparse⟩

/-- Every query has its terms. -/
theorem exists_terms (query : String) : ∃ qs, Terms query qs := by
  unfold Terms parse_query
  induction tokenize query with
  | nil => exact ⟨[], fun _ => rfl⟩
  | cons token tokens ih =>
    obtain ⟨qs, hqs⟩ := ih
    by_cases hopen : token.unterminated = true
    · refine ⟨qs, fun s => ?_⟩
      rw [parse_tokens]
      simp only [hopen, if_true]
      exact hqs s
    · obtain ⟨q, hq⟩ | ⟨raw, hraw⟩ := parse_term_resolves token.text token.starts_quoted
      · refine ⟨q :: qs, fun s => ?_⟩
        rw [parse_tokens]
        simp only [hopen, Bool.false_eq_true, if_false, hq, List.map_cons, hqs s]
      · refine ⟨qs, fun s => ?_⟩
        rw [parse_tokens]
        simp only [hopen, Bool.false_eq_true, if_false, hraw]
        exact hqs s

/-- The values of one key, picked out by its id or by its text. -/
theorem values_of_key (hkey : s.key_interner.Holds ks) {key : String} {key_id : UInt32}
    (hid : s.attribute_key_id key = some key_id) {ids : List UInt32}
    {attrs : List (String × AttrValue)} (hids : ids.mapM s.attribute_key = some (attrs.map Prod.fst)) :
    (ids.zip (attrs.map Prod.snd)).filterMap (fun kv => if kv.1 = key_id then some kv.2 else none)
      = (attrs.filter fun kv => decide (kv.1 = key)).map Prod.snd := by
  induction attrs generalizing ids with
  | nil => simp
  | cons kv attrs ih =>
    cases ids with
    | nil => cases hids
    | cons id ids =>
      obtain ⟨name, names, hname, hrest, hcons⟩ := mapM_cons_eq_some.mp hids
      obtain ⟨rfl, rfl⟩ : kv.1 = name ∧ attrs.map Prod.fst = names := by simpa using hcons
      -- the interner is injective in both directions
      have hsame : id = key_id ↔ kv.1 = key := by
        constructor
        · rintro rfl
          exact Option.some.inj (hname.symm.trans (hkey.get_of_lookup hid))
        · intro hk
          have hlookup : s.attribute_key_id kv.1 = some id := (hkey.map kv.1 id).mpr hname
          rw [hk, hid] at hlookup
          exact (Option.some.inj hlookup).symm
      rw [List.map_cons, List.zip_cons_cons, List.filterMap_cons, ih hrest, List.filter_cons]
      by_cases hk : kv.1 = key
      · simp [hk, hsame.mpr hk]
      · have hne : id ≠ key_id := fun e => hk (hsame.mp e)
        simp [hk, hne]

/-- What the scan asks of the values of a key is what the term asks of the
pairs. -/
theorem values_hold (op : Op) (key raw : String) (attrs : List (String × AttrValue)) :
    (let values := (attrs.filter fun kv => decide (kv.1 = key)).map Prod.snd
      if values = [] then decide (op = .ne) else values.any fun v => attr_matches op v raw)
      = ((attrs.any fun kv => decide (kv.1 = key) && attr_matches op kv.2 raw)
        || decide (op = .ne) && !attrs.any fun kv => decide (kv.1 = key)) := by
  dsimp only
  have hnil : (attrs.filter fun kv => decide (kv.1 = key)).map Prod.snd = []
      ↔ ∀ kv ∈ attrs, kv.1 ≠ key := by
    rw [List.map_eq_nil_iff, List.filter_eq_nil_iff]
    simp only [decide_eq_true_eq, ne_eq]
  by_cases hnone : ∀ kv ∈ attrs, kv.1 ≠ key
  · -- no pair has the key
    have hcarried : (attrs.any fun kv => decide (kv.1 = key)) = false := by
      simpa using hnone
    have hmatched : (attrs.any fun kv => decide (kv.1 = key) && attr_matches op kv.2 raw)
        = false := by
      simp only [List.any_eq_false, Bool.and_eq_true, decide_eq_true_eq, not_and]
      exact fun kv hkv e => absurd e (hnone kv hkv)
    rw [if_pos (hnil.mpr hnone), hcarried, hmatched, Bool.false_or, Bool.not_false, Bool.and_true]
  · have hcarried : (attrs.any fun kv => decide (kv.1 = key)) = true := by
      simpa using hnone
    rw [if_neg (mt hnil.mp hnone), hcarried, List.any_map, List.any_filter, Bool.not_true,
      Bool.and_false, Bool.or_false]
    rfl

/-- **One term on one span**: the scan answers what the term says of the
record. -/
theorem matches_holds (hshows : Store.Shows s t i keys services span)
    (hkey : s.key_interner.Holds ks) (q : QueryTerm)
    (hknown : ∀ op key raw, q = .attr op key raw → (s.attribute_key_id key).isSome) :
    (q.resolve s).matches t s i = some (q.holds (record_of keys services span)) := by
  cases q with
  | service op want =>
    obtain ⟨id, hid, hname⟩ := Option.bind_eq_some_iff.mp hshows.service
    simp only [QueryTerm.resolve, Term.matches, hid, hname, Option.bind_eq_bind, Option.bind_some,
      Option.pure_def, Option.some.injEq, record_of]
    generalize span.service_name.filter _ = got
    cases op <;> cases got <;> simp [QueryTerm.holds]
  | status op want =>
    simp only [QueryTerm.resolve, Term.matches, hshows.status_code, Option.bind_eq_bind,
      Option.bind_some, Option.pure_def, record_of]
    cases op <;> rfl
  | duration op want =>
    simp only [QueryTerm.resolve, Term.matches, hshows.end_time, hshows.start_time,
      Option.bind_eq_bind, Option.bind_some, Option.pure_def, QueryTerm.holds, record_of,
      checked_sub]
    by_cases hle : span.start_time_unix_nano ≤ span.end_time_unix_nano
    · have hnat := UInt64.le_iff_toNat_le.mp hle
      simp only [hle, if_true, hnat, decide_true, Bool.true_and,
        UInt64.toNat_sub_of_le _ _ hle]
    · have hnat : ¬span.start_time_unix_nano.toNat ≤ span.end_time_unix_nano.toNat := fun h =>
        hle (UInt64.le_iff_toNat_le.mpr h)
      simp only [hle, if_false, hnat, decide_false, Bool.false_and]
  | attr op key raw =>
    obtain ⟨key_id, hid⟩ := Option.isSome_iff_exists.mp (hknown op key raw rfl)
    obtain ⟨ids, hids, hnames⟩ := Option.bind_eq_some_iff.mp hshows.attribute_keys
    simp only [QueryTerm.resolve, hid, Term.matches, hids, hshows.attributes, Option.bind_eq_bind,
      Option.bind_some, Option.pure_def, values_of_key hkey hid hnames, QueryTerm.holds, record_of]
    exact congrArg some (values_hold op key raw _)
  | substring needle =>
    simp only [QueryTerm.resolve, Term.matches, hshows.name, hshows.attributes, Option.bind_eq_bind,
      Option.bind_some, Option.pure_def, QueryTerm.holds, record_of]
    by_cases hname : str_contains span.name needle = true
    · rw [if_pos hname, hname, Bool.true_or]
    · rw [if_neg hname, Bool.not_eq_true _ |>.mp hname, Bool.false_or, List.any_map]
      rfl

/-- The record of a row is that of the span it shows. -/
theorem span_record_eq (hshows : Store.Shows s t i keys services span) :
    s.span_record t i = some (record_of keys services span) := by
  obtain ⟨id, hid, hservice⟩ := Option.bind_eq_some_iff.mp hshows.service
  obtain ⟨ids, hids, hnames⟩ := Option.bind_eq_some_iff.mp hshows.attribute_keys
  have hzip : ((Store.restrict_attrs keys span.attributes).map Prod.fst).zip
      ((Store.restrict_attrs keys span.attributes).map Prod.snd)
        = Store.restrict_attrs keys span.attributes := by
    rw [List.zip_map', List.map_id']
  simp only [Store.span_record, hid, hservice, hids, hnames, hshows.attributes, hshows.name,
    hshows.status_code, hshows.start_time, hshows.end_time, hzip, Option.bind_eq_bind,
    Option.bind_some, Option.pure_def]
  rfl

end Terms

/-! ## The scan -/

section Scan

variable {s : Store} {t : Trace} {qs : List QueryTerm}

/-- All terms on one span. -/
theorem all_match {i : ℕ} {r : SpanRecord}
    (h : ∀ q ∈ qs, (q.resolve s).matches t s i = some (q.holds r)) :
    ((qs.map (QueryTerm.resolve s)).allM fun term => term.matches t s i)
      = some (qs.all fun q => q.holds r) := by
  induction qs with
  | nil => rfl
  | cons q qs ih =>
    obtain ⟨hq, hqs⟩ := List.forall_mem_cons.mp h
    rw [List.map_cons, List.allM_cons, hq, List.all_cons]
    cases q.holds r with
    | false => rfl
    | true => exact ih hqs

/-- The walk over the spans. -/
theorem matching_indices_eq (rows : List SpanRecord) (idxs : List ℕ)
    (h : ∀ i ∈ idxs, ∃ r, rows[i]? = some r
      ∧ ∀ q ∈ qs, (q.resolve s).matches t s i = some (q.holds r)) :
    matching_indices (qs.map (QueryTerm.resolve s)) t s idxs
      = some (idxs.filter fun i => rows[i]?.any fun r => qs.all fun q => q.holds r) := by
  induction idxs with
  | nil => rfl
  | cons i idxs ih =>
    obtain ⟨hhead, htail⟩ := List.forall_mem_cons.mp h
    obtain ⟨r, hr, hmatch⟩ := hhead
    rw [matching_indices, all_match hmatch, ih htail, List.filter_cons, hr]
    cases hhold : qs.all fun q => q.holds r with
    | false => simp [hhold]
    | true => simp [hhold]

end Scan

namespace Store

/-- The filter over the rows of a history. -/
theorem Holds.get_filter {s : Store} {ks ss : List String} {arrived : TraceId → List NewSpan}
    (h : s.Holds ks ss arrived) {trace_id : TraceId} {t : Trace} (ht : s.trace trace_id = some t)
    (hsmall : t.attr_keys.length < 2 ^ 32) {query : String} {qs : List QueryTerm}
    (hqs : Terms query qs) (hknown : KeysKnown s qs) {id : String}
    (hid : TraceId.from_hex id = some trace_id) :
    s.get_filter id (some query) = some (.ok
      { indices := (List.range t.span_count).filter fun i =>
          ((lastWrites NewSpan.span_id (arrived trace_id)).map
            (record_of (accepted GLOBAL_INTERNER_CAP ks) (accepted GLOBAL_INTERNER_CAP ss)))[i]?.any
              fun r => qs.all fun q => q.holds r
        dropped_terms := (parse_query query s).2 }) := by
  have hcount : t.span_count = (lastWrites NewSpan.span_id (arrived trace_id)).length := by
    rw [Trace.span_count, (h.resident trace_id t ht).columns.span_ids, List.length_map]
  rw [get_filter_of_trace hid ht, filter_trace_eq, hqs s]
  rw [matching_indices_eq ((lastWrites NewSpan.span_id (arrived trace_id)).map
    (record_of (accepted GLOBAL_INTERNER_CAP ks) (accepted GLOBAL_INTERNER_CAP ss)))
    (List.range t.span_count) fun i hi => ?_]
  · rfl
  · -- every index is a row, and shows the last span sent with its id
    have hlt := List.mem_range.mp hi
    rw [hcount] at hlt
    have hspan := List.getElem?_eq_getElem hlt
    refine ⟨_, by rw [List.getElem?_map, hspan, Option.map_some], fun q hq => ?_⟩
    refine matches_holds (h.shows ht hsmall hspan) h.key q ?_
    rintro op key raw rfl
    exact hknown op key raw hq

/-- **The filter agrees with the plain one.** In a run below the attribute
limit a resident trace shows the records of its spans as they were last sent,
and a query whose keys are known is answered with the indices, in increasing
order, of the records of which all its terms hold. -/
theorem filter_agrees (m : ℕ) (es : List Event) (hsmall : AttrsBelow (new m) es) :
    ∃ s, exec step es (new m) = some s ∧ ∀ trace_id t, s.trace trace_id = some t →
      let rows := (lastWrites NewSpan.span_id (arrivals es (new m) trace_id)).map
        (record_of (accepted GLOBAL_INTERNER_CAP (keys_shown es))
          (accepted GLOBAL_INTERNER_CAP (services_shown es)))
      t.span_count = rows.length ∧ (∀ i < t.span_count, s.span_record t i = rows[i]?)
        ∧ ∀ query, ∃ qs, Terms query qs ∧ (KeysKnown s qs →
            ∀ id, TraceId.from_hex id = some trace_id →
              s.get_filter id (some query) = some (.ok
                { indices := (List.range t.span_count).filter fun i =>
                    rows[i]?.any fun r => qs.all fun q => q.holds r
                  dropped_terms := (parse_query query s).2 })) := by
  obtain ⟨s, hs, hholds⟩ := run_holds m es hsmall
  refine ⟨s, hs, fun trace_id t ht => ?_⟩
  dsimp only
  have hcount : t.span_count
      = (lastWrites NewSpan.span_id (arrivals es (new m) trace_id)).length := by
    rw [Trace.span_count, (hholds.resident trace_id t ht).columns.span_ids, List.length_map]
  refine ⟨by rw [hcount, List.length_map], fun i hi => ?_, fun query => ?_⟩
  · rw [hcount] at hi
    have hspan := List.getElem?_eq_getElem hi
    rw [span_record_eq (hholds.shows ht (hsmall.last hs ht) hspan), List.getElem?_map, hspan,
      Option.map_some]
  · obtain ⟨qs, hqs⟩ := exists_terms query
    exact ⟨qs, hqs, fun hknown id hid => hholds.get_filter ht (hsmall.last hs ht) hqs hknown hid⟩

/-- Two spans, the first sent again with another value for its key. -/
def overwritten : List Event :=
  let a := { Trace.span 1 none "a" with attributes := [("k1", .bool true)] }
  let b := { Trace.span 2 (some 1) "b" with attributes := [("k2", .int 7)] }
  [.insert (tid 1) a 0, .insert (tid 1) b 1,
    .insert (tid 1) { a with attributes := [("k3", .str "x"), ("k1", .bool false)] } 2]

theorem overwritten_runs : (exec step overwritten (new 10000)).isSome := by decide +kernel

theorem filter_agrees_overwritten :
    ∃ s t qs, exec step overwritten (new 10000) = some s ∧ s.trace (tid 1) = some t
      ∧ Terms "k1!=true k3=x" qs ∧ KeysKnown s qs
      ∧ s.get_filter (tid 1).to_hex (some "k1!=true k3=x")
        = some (.ok { indices := [0], dropped_terms := [] })
      ∧ ((List.range t.span_count).filter fun i =>
          ((lastWrites NewSpan.span_id (arrivals overwritten (new 10000) (tid 1))).map
            (record_of (accepted GLOBAL_INTERNER_CAP (keys_shown overwritten))
              (accepted GLOBAL_INTERNER_CAP (services_shown overwritten))))[i]?.any
            fun r => qs.all fun q => q.holds r) = [0] := by
  obtain ⟨s, hs, hagrees⟩ :=
    filter_agrees 10000 overwritten (AttrsBelow.of_sent (by decide +kernel))
  obtain rfl := Option.some.inj (hs.symm.trans (Option.some_get overwritten_runs).symm)
  have hresident : ((Option.get _ overwritten_runs).trace (tid 1)).isSome := by decide +kernel
  obtain ⟨t, ht⟩ := Option.isSome_iff_exists.mp hresident
  obtain ⟨_, _, hquery⟩ := hagrees (tid 1) t ht
  obtain ⟨qs, hqs, hfilter⟩ := hquery "k1!=true k3=x"
  have hparse : (parse_query "k1!=true k3=x" (Option.get _ overwritten_runs)).1
      = [.attr .ne (some 0) "true", .attr .eq (some 2) "x"] := by decide +kernel
  have hknown : KeysKnown (Option.get _ overwritten_runs) qs := .of_parse hqs fun op raw => by
    rw [hparse]
    simp
  have hanswer : (Option.get _ overwritten_runs).get_filter (tid 1).to_hex (some "k1!=true k3=x")
      = some (.ok { indices := [0], dropped_terms := [] }) := by decide +kernel
  have hplain := hfilter hknown (tid 1).to_hex (by decide +kernel)
  rw [hanswer] at hplain
  injection hplain with hplain
  injection hplain with hplain
  exact ⟨_, t, qs, hs, ht, hqs, hknown, hanswer, (FilterResponse.mk.inj hplain).1.symm⟩

/-! ## Past the attribute limit -/

/-- The query `b="false"`. -/
def b_false : String := print [.comparison "b" .eq "false"]

theorem b_false_terms : Terms b_false [.attr .eq "b" "false"] := by
  intro s
  have hprintable : ∀ t ∈ [PrintedTerm.comparison "b" .eq "false"], t.Printable := by
    intro t ht
    obtain rfl := List.mem_singleton.mp ht
    exact ⟨⟨'b', [], by decide, by decide, nofun⟩, by decide, by decide⟩
  rw [b_false, parse_print hprintable]
  rfl

/-- No filler has the key. -/
theorem filler_unmatched (keys services : List String) (w i : ℕ) :
    (QueryTerm.attr .eq "b" "false").holds (record_of keys services (filler w i)) = false := by
  have hnone : ∀ kv ∈ (record_of keys services (filler w i)).attributes, kv.1 ≠ "b" := by
    intro kv hkv
    rw [(List.mem_replicate.mp (List.mem_filter.mp hkv).1).2]
    decide
  have hmatched : ((record_of keys services (filler w i)).attributes.any fun kv =>
      decide (kv.1 = "b") && attr_matches .eq kv.2 "false") = false := by
    simp only [List.any_eq_false, Bool.and_eq_true, decide_eq_true_eq, not_and]
    exact fun kv hkv e => absurd e (hnone kv hkv)
  rw [QueryTerm.holds, hmatched]
  rfl

/-- The first row was sent once, before any batch. -/
theorem grown_first {k j : ℕ} {s₀ s₁ s₂ : Store}
    (hs₀ : exec step (grown_run (k + 1) (j + 1)) (new 0) = some s₀)
    (hs₁ : s₀.apply_batch (growing_batch (k + 1) (j + 1)) 0 TraceOrder.by_id = some s₁)
    (hs₂ : s₁.apply_batch (growing_batch (k + 1) (j + 1)) 0 TraceOrder.by_id = some s₂)
    (hin₁ : (s₁.trace (tid 1)).isSome) (hin₂ : (s₂.trace (tid 1)).isSome) (hj : j + 4 < 2 ^ 64) :
    (lastWrites NewSpan.span_id (arrivals (grown_run (k + 1) (j + 1)
        ++ (growing_batch (k + 1) (j + 1)).events 0 TraceOrder.by_id
        ++ (growing_batch (k + 1) (j + 1)).events 0 TraceOrder.by_id) (new 0) (tid 1)))[0]?
      = some (filler (k + 1) 0) := by
  have hpairs : grown_run (k + 1) (j + 1) = ((grown (fillers (k + 1) (j + 1)) (k + 1) 0 0).map
      fun r => (tid 1, r)).map fun p => .insert p.1 p.2 0 := by
    rw [grown_run, sends, List.map_map]
    rfl
  have hsent : arrivals (grown_run (k + 1) (j + 1)) (new 0) (tid 1)
      = grown (fillers (k + 1) (j + 1)) (k + 1) 0 0 := by
    rw [(arrivals_of_kept hs₀ (inserts_counters (hpairs ▸ hs₀)).1 (tid 1)).1, sent_to, grown_run,
      sent_sends, List.filterMap_map]
    simp
  rw [arrivals_batch (exec_batch hs₀ hs₁) hs₂ hin₂, arrivals_batch hs₀ hs₁ hin₁, hsent,
    List.append_assoc]
  have hids : ((grown (fillers (k + 1) (j + 1)) (k + 1) 0 0).map NewSpan.span_id).Nodup := by
    change ((grown (fillers (k + 1) (j + 1)) (k + 1) 0 0).map (·.span_id)).Nodup
    rw [grown_ids]
    exact nth_span_ids_nodup (by omega)
  have hzero : (lastWrites NewSpan.span_id (grown (fillers (k + 1) (j + 1)) (k + 1) 0 0))[0]?
      = some (filler (k + 1) 0) := by
    rw [lastWrites_of_nodup hids, fillers_succ]
    rfl
  refine lastWrites_kept hzero fun hmem => ?_
  -- the batch writes other rows
  have hbatch : (growing_batch (k + 1) (j + 1)).spans_of (tid 1)
      = [filler (k + 1) (j + 2), narrow (j + 4), filler 0 (j + 2), filler (k + 1) (j + 1)] := by
    simp [SpanBatch.spans_of, growing_batch]
  have hother : ∀ i, 0 < i → i ≤ j + 4 → nth_span_id 0 ≠ nth_span_id i := fun i hpos hle h => by
    have := nth_span_id_injective (by omega) (by omega) h
    omega
  rw [hbatch, List.map_append, List.mem_append, or_self] at hmem
  simp only [filler, narrow, List.map_cons, List.map_nil, List.mem_cons, List.not_mem_nil,
    or_false] at hmem
  obtain h | h | h | h := hmem
  all_goals exact hother _ (by omega) (by omega) h

/-- **Past the limit the filter finds a span that was never sent what it asks
for**: a retried batch has left the last row's `b=false` with the first one. -/
theorem filter_past_the_limit :
    ∃ es s t qs indices, (∀ p ∈ sent es, p.2.attributes.length ≤ 2 ^ 16)
      ∧ exec step es (new 0) = some s ∧ s.trace (tid 1) = some t
      ∧ Terms b_false qs ∧ KeysKnown s qs
      ∧ s.get_filter (tid 1).to_hex (some b_false)
          = some (.ok { indices, dropped_terms := (parse_query b_false s).2 })
      ∧ 0 ∈ indices
      ∧ (((lastWrites NewSpan.span_id (arrivals es (new 0) (tid 1))).map
          (record_of (accepted GLOBAL_INTERNER_CAP (keys_shown es))
            (accepted GLOBAL_INTERNER_CAP (services_shown es))))[0]?.any
          fun r => qs.all fun q => q.holds r) = false := by
  obtain ⟨k, hk⟩ : ∃ k : ℕ, k + 1 = 2 ^ 16 := ⟨2 ^ 16 - 1, rfl⟩
  obtain ⟨j, hj⟩ : ∃ j : ℕ, j + 4 = 2 ^ 16 := ⟨2 ^ 16 - 4, rfl⟩
  obtain ⟨s₀, s₁, s₂, hs₀, hs₁, hs₂, h₀, h₁, h₂, hsmall⟩ :=
    retry_writes_over (k := k) (j := j) (by omega) (by rw [hk, hj]; rfl) TraceOrder.by_id
  obtain ⟨t₁, ht₁, _⟩ := h₁.trace (by simp [grown])
  obtain ⟨t, ht, hcolumns, _⟩ := h₂.trace (by simp [grown])
  have hfirst := grown_first hs₀ hs₁ hs₂ (Option.isSome_of_eq_some ht₁)
    (Option.isSome_of_eq_some ht) (by omega)
  obtain ⟨ks, ss, arrived, hh, hks, _, hrows⟩ := h₂
  have hzero : (lastWrites NewSpan.span_id (arrived (tid 1)))[0]? = some (written_over k) := by
    rw [hrows]
    rfl
  have hwritten := mem_of_mem_lastWrites (List.mem_of_getElem? hzero)
  have hb : ("b", AttrValue.bool false) ∈ (written_over k).attributes := List.mem_cons_self
  have hknown : KeysKnown s₂ [.attr .eq "b" "false"] := by
    intro op key raw h
    obtain ⟨rfl, rfl, rfl⟩ := QueryTerm.attr.inj (List.mem_singleton.mp h)
    exact known_of_few hh.key hh.key_cap hks ((hh.shown (tid 1) _ hwritten).1 _ hb)
  refine ⟨_, s₂, t, _, _, fun p hp => ?_, exec_batch (exec_batch hs₀ hs₁) hs₂, ht, b_false_terms,
    hknown, hh.get_filter ht (hsmall t ht) b_false_terms hknown (TraceId.from_hex_to_hex _), ?_, ?_⟩
  · have hsent : p ∈ sent (grown_run (k + 1) (j + 1)) ++ (growing_batch (k + 1) (j + 1)).spans := by
      rw [sent_append, sent_append, sent_batch, List.mem_append] at hp
      rcases hp with hp | hp
      · exact hp
      · exact List.mem_append_right _ hp
    exact hk ▸ grown_width hsent
  · -- the store shows `b=false` for the first row
    refine List.mem_filter.mpr ⟨List.mem_range.mpr ?_, ?_⟩
    · rw [Trace.span_count, hcolumns.span_ids, List.length_map]
      simp [grown]
    · rw [List.getElem?_map, hzero, Option.map_some, Option.any_some]
      simp only [List.all_cons, List.all_nil, Bool.and_true, QueryTerm.holds, record_of,
        hh.restrict_attrs_few hks hwritten, Bool.or_eq_true, List.any_eq_true]
      exact Or.inl ⟨_, hb, by decide⟩
  · -- it was never sent with that key
    rw [List.getElem?_map, hfirst, Option.map_some, Option.any_some]
    rw [List.all_cons, filler_unmatched, Bool.false_and]

end Store

end Spanfall
