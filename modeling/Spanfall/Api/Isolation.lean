/-
`Isolation.lean` -- what a filter's response depends on.

A query names attribute keys and services by text, and the store resolves them
through interners that all traces share. On a trace with the same rows in two
stores every term gives the same answer ([`matches_same`]) as long as the two
stores agree on which keys are known at all: an unknown key makes its term
false, while a known one that a span does not carry makes `!=` true. So other
traces show through, by the keys they bring, and by nothing else
([`filter_isolated_iff`]).
-/
import Mathlib.Data.List.TakeWhile
import Spanfall.Api.Quoting
import Spanfall.Store.Renumber

set_option autoImplicit false

namespace Spanfall

open Lib.Vec Lib.Runs Store

/-- A key that a term can look up: of the grammar's form, and none of the three
that the parser claims. -/
def GrammarKey (key : String) : Prop := KeyForm key ∧ key ∉ ["service", "status", "duration"]

/-- A comparison of an attribute. -/
theorem parse_attr_comparison {key v : String} {op : Op} (h : GrammarKey key)
    (hplain : op = .gt ∨ op = .lt → v.toList.head? ≠ some '=') (s : Store) :
    parse_term (key ++ op.literal ++ v) false s = .ok (.attr op (s.attribute_key_id key) v) := by
  rw [parse_comparison h.1 hplain, parse_key_term_of_attr h.2]

/-! ## One term -/

section Terms

variable {s s' : Store} {t t' : Trace}

theorem SameRows.attributes (h : SameRows s s' t t') (i : ℕ) :
    t'.attributes i = t.attributes i := by
  rw [Trace.attributes, Trace.attributes, h.attr_offsets, h.attr_values]

theorem SameRows.attribute_keys (h : SameRows s s' t t') (i : ℕ) :
    Option.Rel (List.Forall₂ (SameName s.attribute_key s'.attribute_key)) (t.attribute_keys i)
      (t'.attribute_keys i) := by
  have hslice : ∀ start stop : ℕ,
      Option.Rel (List.Forall₂ (SameName s.attribute_key s'.attribute_key))
        (slice t.attr_keys start stop) (slice t'.attr_keys start stop) := by
    intro start stop
    rw [slice, slice, List.Forall₂.length_eq h.attr_keys]
    by_cases hin : start ≤ stop ∧ stop ≤ t'.attr_keys.length
    · rw [if_pos hin, if_pos hin]
      exact Option.Rel.some (List.forall₂_drop _ (List.forall₂_take _ h.attr_keys))
    · rw [if_neg hin, if_neg hin]
      exact Option.Rel.none
  rw [Trace.attribute_keys, Trace.attribute_keys, h.attr_offsets]
  cases t.attr_offsets[i]? with
  | none => exact Option.Rel.none
  | some start =>
    cases t.attr_offsets[i + 1]? with
    | none => exact Option.Rel.none
    | some stop => exact hslice _ _

/-- The service of a span, resolved. -/
theorem SameRows.service (h : SameRows s s' t t') (i : ℕ) :
    ((t'.service_name_id i).bind fun o => o.mapM s'.service_name)
      = (t.service_name_id i).bind fun o => o.mapM s.service_name := by
  have hrel := forall₂_getElem? h.service_name_ids i
  rw [Trace.service_name_id, Trace.service_name_id]
  generalize t.service_name_ids[i]? = o, t'.service_name_ids[i]? = o' at hrel ⊢
  cases hrel with
  | none => rfl
  | some ho =>
    cases ho with
    | none => rfl
    | some hname =>
      obtain ⟨name, hname, hname'⟩ := hname
      rw [Option.bind_some, Option.bind_some, Option.mapM_some, Option.mapM_some, hname, hname']

/-- The values of one key, picked out by its id in either store. -/
theorem values_same {key_id key_id' : UInt32} {keys keys' : List UInt32} {R : UInt32 → UInt32 → Prop}
    (h : List.Forall₂ R keys keys') (hid : ∀ a a', R a a' → (a = key_id ↔ a' = key_id'))
    (attrs : List AttrValue) :
    (keys'.zip attrs).filterMap (fun kv => if kv.1 = key_id' then some kv.2 else none)
      = (keys.zip attrs).filterMap fun kv => if kv.1 = key_id then some kv.2 else none := by
  induction h generalizing attrs with
  | nil => rfl
  | @cons a a' keys keys' hhead _ ih =>
    cases attrs with
    | nil => rfl
    | cons v attrs =>
      rw [List.zip_cons_cons, List.zip_cons_cons, List.filterMap_cons, List.filterMap_cons, ih]
      by_cases ha : a = key_id
      · simp [ha, (hid a a' hhead).mp ha]
      · have ha' : a' ≠ key_id' := fun e => ha ((hid a a' hhead).mpr e)
        simp [ha, ha']

/-- A known key is one id in either store. -/
theorem key_id_same {ks ks' : List String} (hkey : s.key_interner.Holds ks)
    (hkey' : s'.key_interner.Holds ks') {key : String} {id id' : UInt32}
    (hid : s.attribute_key_id key = some id) (hid' : s'.attribute_key_id key = some id')
    {a a' : UInt32} (h : SameName s.attribute_key s'.attribute_key a a') : a = id ↔ a' = id' := by
  obtain ⟨name, hname, hname'⟩ := h
  have hlookup : s.attribute_key_id name = some a := (hkey.map name a).mpr hname
  have hlookup' : s'.attribute_key_id name = some a' := (hkey'.map name a').mpr hname'
  constructor
  · rintro rfl
    have hsame : name = key :=
      Option.some.inj (hname.symm.trans (hkey.get_of_lookup hid))
    rw [hsame, hid'] at hlookup'
    exact (Option.some.inj hlookup').symm
  · rintro rfl
    have hsame : name = key :=
      Option.some.inj (hname'.symm.trans (hkey'.get_of_lookup hid'))
    rw [hsame, hid] at hlookup
    exact (Option.some.inj hlookup).symm

/-- One term, parsed in two stores. -/
inductive SameTerm (s s' : Store) : Term → Term → Prop
  | plain {term : Term} (h : ∀ op key_id raw, term ≠ .attr op key_id raw) : SameTerm s s' term term
  | attr (op : Op) (key raw : String)
      (h : (s.attribute_key_id key).isSome ↔ (s'.attribute_key_id key).isSome) :
      SameTerm s s' (.attr op (s.attribute_key_id key) raw) (.attr op (s'.attribute_key_id key) raw)

/-- **One term on one span**, in two stores with the same rows. -/
theorem matches_same (h : SameRows s s' t t') {ks ks' : List String}
    (hkey : s.key_interner.Holds ks) (hkey' : s'.key_interner.Holds ks') {term term' : Term}
    (hterm : SameTerm s s' term term') (i : ℕ) : term'.matches t' s' i = term.matches t s i := by
  cases hterm with
  -- a term that names no key reads columns that are equal, or resolve alike
  | plain hplain =>
    cases term with
    | service op want =>
      have hservice := h.service i
      simp only [Term.matches, Option.bind_eq_bind, ← Option.bind_assoc]
      rw [hservice]
    | status op want =>
      simp only [Term.matches, Trace.status_code, h.status_codes]
    | duration op want =>
      simp only [Term.matches, Trace.end_time_unix_nano, Trace.start_time_unix_nano, h.end_times,
        h.start_times]
    | attr op key_id raw => exact absurd rfl (hplain op key_id raw)
    | substring needle =>
      simp only [Term.matches, Trace.name, h.names, h.attributes]
  -- a key known in neither store matches nothing in either
  | attr op key raw hknown =>
    cases hid : s.attribute_key_id key with
    | none =>
      cases hid' : s'.attribute_key_id key with
      | none => rfl
      | some id' =>
        rw [hid, hid'] at hknown
        exact absurd (hknown.mpr rfl) Bool.false_ne_true
    | some id =>
      cases hid' : s'.attribute_key_id key with
      | none =>
        rw [hid, hid'] at hknown
        exact absurd (hknown.mp rfl) Bool.false_ne_true
      | some id' =>
        have hkeys := h.attribute_keys i
        simp only [Term.matches, h.attributes]
        generalize t.attribute_keys i = keys, t'.attribute_keys i = keys' at hkeys ⊢
        cases hkeys with
        | none => rfl
        | some hkeys =>
          simp only [Option.bind_eq_bind, Option.bind_some]
          have hvalues := values_same hkeys fun a a' ha => key_id_same hkey hkey' hid hid' ha
          simp only [hvalues]

end Terms

/-! ## One query -/

section Queries

/-- The characters that are cut off as a key have the form of one. -/
theorem keyForm_cut {cs : List Char} (h : cs.head?.any is_key_start = true) :
    KeyForm (String.ofList (cs.takeWhile is_key_char)) := by
  cases cs with
  | nil => cases h
  | cons c cs =>
    have hstart : is_key_start c = true := h
    refine ⟨c, cs.takeWhile is_key_char, ?_, hstart, fun d hd => List.mem_takeWhile_imp hd⟩
    rw [String.toList_ofList, List.takeWhile_cons_of_pos (is_key_char_of_start hstart)]

/-- The keys that the parser claims never reach the store. -/
theorem parse_key_term_claimed {key : String} (h : key ∈ ["service", "status", "duration"])
    (text : String) (op : Op) (value : String) (s s' : Store) :
    parse_key_term s' text key op value = parse_key_term s text key op value
      ∧ ∀ op' key_id raw, parse_key_term s text key op value ≠ .ok (.attr op' key_id raw) := by
  simp only [List.mem_cons, List.not_mem_nil, or_false] at h
  rcases h with rfl | rfl | rfl
  · have hnot : "service" ≠ "status" ∧ "service" ≠ "duration" := by decide
    simp only [parse_key_term, hnot, false_and, true_and, true_or, if_true, if_false]
    split_ifs <;> simp
  · have hnot : "status" ≠ "service" ∧ "status" ≠ "duration" := by decide
    simp only [parse_key_term, hnot, false_and, true_and, or_true, if_true, if_false]
    split_ifs <;> simp
  · have hnot : "duration" ≠ "service" ∧ "duration" ≠ "status" := by decide
    simp only [parse_key_term, hnot, false_and, if_true, if_false]
    cases parse_duration value <;> simp

/-- **One term of a query** does not depend on the store, or names an attribute
by a key of the grammar. -/
theorem parse_term_cases (text : String) (starts_quoted : Bool) :
    (∃ r, (∀ s, parse_term text starts_quoted s = r)
        ∧ ∀ op key_id raw, r ≠ .ok (.attr op key_id raw))
      ∨ ∃ op key raw, GrammarKey key
          ∧ ∀ s, parse_term text starts_quoted s = .ok (.attr op (s.attribute_key_id key) raw) := by
  have hsubstring : ∀ op key_id raw,
      (.ok (.substring text) : Except String Term) ≠ .ok (.attr op key_id raw) := by simp
  unfold parse_term
  cases starts_quoted with
  | true => exact Or.inl ⟨_, fun _ => rfl, hsubstring⟩
  | false =>
    dsimp only
    by_cases hstart : text.toList.head?.any is_key_start = true
    · -- the text begins with a key: what is behind it decides
      simp only [hstart, if_true, Bool.false_eq_true, if_false]
      generalize hkey : text.toList.takeWhile is_key_char = key
      by_cases hplain : key = [] ∨ text.toList.drop key.length = []
      · simp only [hplain, if_true]
        exact Or.inl ⟨_, fun _ => rfl, hsubstring⟩
      · simp only [hplain, if_false]
        generalize text.toList.drop key.length = rest
        cases OPS.find? fun p => decide (p.1.toList <+: rest) with
        | none =>
          dsimp only
          refine Or.inl ⟨_, fun _ => rfl, ?_⟩
          split_ifs <;> simp
        | some found =>
          obtain ⟨lit, op⟩ := found
          dsimp only
          generalize String.ofList (rest.drop lit.toList.length) = value
          by_cases hclaimed : String.ofList key ∈ ["service", "status", "duration"]
          · have hfixed := parse_key_term_claimed hclaimed text op value
            exact Or.inl ⟨_, fun s => (hfixed (Store.new 0) s).1,
              (hfixed (Store.new 0) (Store.new 0)).2⟩
          · refine Or.inr ⟨op, String.ofList key, value, ⟨?_, hclaimed⟩, fun s =>
              parse_key_term_of_attr hclaimed s text op value⟩
            rw [← hkey]
            exact keyForm_cut hstart
    · simp only [hstart, Bool.false_eq_true, if_false]
      simp only [true_or, if_true]
      exact Or.inl ⟨_, fun _ => rfl, hsubstring⟩

/-- The two stores know the same keys of the grammar. -/
def SameKeys (s s' : Store) : Prop :=
  ∀ key, GrammarKey key → ((s.attribute_key_id key).isSome ↔ (s'.attribute_key_id key).isSome)

variable {s s' : Store} {t t' : Trace}

/-- **The tokens of a query in two stores**: term by term the same, and the same
ones dropped. -/
theorem parse_tokens_same (h : SameKeys s s') (tokens : List Token) :
    List.Forall₂ (SameTerm s s') (parse_tokens s tokens).1 (parse_tokens s' tokens).1
      ∧ (parse_tokens s' tokens).2 = (parse_tokens s tokens).2 := by
  induction tokens with
  | nil => exact ⟨.nil, rfl⟩
  | cons token tokens ih =>
    obtain ⟨hterms, hdropped⟩ := ih
    rw [parse_tokens, parse_tokens]
    dsimp only
    cases token.unterminated with
    | true =>
      simp only [if_true]
      exact ⟨hterms, by rw [hdropped]⟩
    | false =>
      simp only [Bool.false_eq_true, if_false]
      -- one term, parsed alike or by the id its key has in each store
      rcases parse_term_cases token.text token.starts_quoted with
        ⟨r, hparse, hplain⟩ | ⟨op, key, raw, hkey, hparse⟩
      · rw [hparse s, hparse s']
        cases r with
        | error raw => exact ⟨hterms, by rw [hdropped]⟩
        | ok term =>
          refine ⟨.cons (.plain ?_) hterms, hdropped⟩
          intro op key_id raw he
          exact hplain op key_id raw (congrArg Except.ok he)
      · rw [hparse s, hparse s']
        exact ⟨.cons (.attr op key raw (h key hkey)) hterms, hdropped⟩

/-- The walk over the spans, term lists that give the same answers. -/
theorem matching_indices_same (h : SameRows s s' t t') {ks ks' : List String}
    (hkey : s.key_interner.Holds ks) (hkey' : s'.key_interner.Holds ks') {terms terms' : List Term}
    (hterms : List.Forall₂ (SameTerm s s') terms terms') (idxs : List ℕ) :
    matching_indices terms' t' s' idxs = matching_indices terms t s idxs := by
  have hall : ∀ i, (terms'.allM fun term : Term => term.matches t' s' i)
      = terms.allM fun term : Term => term.matches t s i := by
    intro i
    induction hterms with
    | nil => rfl
    | cons hterm _ ih => rw [List.allM_cons, List.allM_cons, matches_same h hkey hkey' hterm, ih]
  induction idxs with
  | nil => rfl
  | cons i idxs ih => rw [matching_indices, matching_indices, hall, ih]

/-- **One query on the same rows**, in stores that know the same keys. -/
theorem filter_trace_same (h : SameRows s s' t t') {ks ks' : List String}
    (hkey : s.key_interner.Holds ks) (hkey' : s'.key_interner.Holds ks') (hknown : SameKeys s s')
    (query : String) : s'.filter_trace t' query = s.filter_trace t query := by
  obtain ⟨hterms, hdropped⟩ := parse_tokens_same hknown (tokenize query)
  have hcount : t'.span_count = t.span_count := by
    rw [Trace.span_count, Trace.span_count, h.span_ids]
  rw [filter_trace_eq, filter_trace_eq, hcount, parse_query, parse_query, hdropped,
    matching_indices_same h hkey hkey' hterms]

end Queries

/-! ## A key that is known in one store only -/

section Absent

variable {s s' : Store} {t t' : Trace}

/-- A term on an unknown key hits no span. -/
theorem unknown_hits_nothing (op : Op) (raw : String) (idxs : List ℕ) :
    matching_indices [.attr op none raw] t s idxs = some [] := by
  induction idxs with
  | nil => rfl
  | cons i idxs ih =>
    rw [matching_indices, ih]
    rfl

/-- A known key that no span of the trace carries: `!=` hits the span, if it
does not panic there. -/
theorem absent_hits {id : UInt32} (habsent : id ∉ t.attr_keys) (raw : String) (i : ℕ) :
    (Term.attr .ne (some id) raw).matches t s i ≠ some false := by
  unfold Term.matches
  intro h
  obtain ⟨keys, hkeys, h⟩ := Option.bind_eq_some_iff.mp h
  obtain ⟨attrs, _, h⟩ := Option.bind_eq_some_iff.mp h
  -- the keys of one span are among those of the trace
  have hout : id ∉ keys := by
    obtain ⟨start, _, hkeys⟩ := Option.bind_eq_some_iff.mp hkeys
    obtain ⟨stop, _, hkeys⟩ := Option.bind_eq_some_iff.mp hkeys
    obtain ⟨_, rfl⟩ := slice_eq_some.mp hkeys
    intro hin
    exact habsent (List.mem_of_mem_take (List.mem_of_mem_drop hin))
  have hnone : ((keys.zip attrs).filterMap fun kv => if kv.1 = id then some kv.2 else none) = [] := by
    rw [List.filterMap_eq_nil_iff]
    intro kv hkv
    rw [if_neg]
    rintro rfl
    exact hout (List.of_mem_zip hkv).1
  rw [hnone] at h
  cases h

theorem absent_hits_first {id : UInt32} (habsent : id ∉ t.attr_keys) (raw : String) (i : ℕ)
    (idxs : List ℕ) : matching_indices [.attr .ne (some id) raw] t s (i :: idxs) ≠ some [] := by
  intro h
  have hmatch := @absent_hits s t id habsent raw i
  rw [matching_indices, List.allM_cons] at h
  cases hhit : (Term.attr .ne (some id) raw).matches t s i with
  | none =>
    rw [hhit] at h
    cases h
  | some hit =>
    cases hit with
    | false => exact hmatch hhit
    | true =>
      rw [hhit] at h
      obtain ⟨kept, hkept, h⟩ := Option.bind_eq_some_iff.mp h
      obtain rfl : true = kept := Option.some.inj hkept
      obtain ⟨_, _, h⟩ := Option.bind_eq_some_iff.mp h
      cases h

/-- A key that the other store does not know is on no span of the trace. -/
theorem absent_of_unknown (h : SameRows s s' t t') {ks ks' : List String}
    (hkey : s.key_interner.Holds ks) (hkey' : s'.key_interner.Holds ks') {key : String} {id : UInt32}
    (hid : s.attribute_key_id key = some id) (hunknown : s'.attribute_key_id key = none) :
    id ∉ t.attr_keys := by
  intro hin
  obtain ⟨i, hi⟩ := List.mem_iff_getElem?.mp hin
  have hrel := forall₂_getElem? h.attr_keys i
  rw [hi] at hrel
  generalize t'.attr_keys[i]? = o' at hrel
  cases hrel with
  | some hname =>
    obtain ⟨name, hname, hname'⟩ := hname
    obtain rfl : name = key := Option.some.inj (hname.symm.trans (hkey.get_of_lookup hid))
    have hlookup : s'.attribute_key_id name = some _ := (hkey'.map name _).mpr hname'
    rw [hunknown] at hlookup
    cases hlookup

/-- The query `key!="x"`. -/
def not_x (key : String) : String := print [.comparison key .ne "x"]

theorem parse_not_x {key : String} (h : GrammarKey key) (s : Store) :
    parse_query (not_x key) s = ([.attr .ne (s.attribute_key_id key) "x"], []) := by
  have hprintable : ∀ t ∈ [PrintedTerm.comparison key .ne "x"], t.Printable := by
    intro t ht
    obtain rfl := List.mem_singleton.mp ht
    exact ⟨h.1, h.2, by decide⟩
  exact parse_print hprintable s

/-- **A key known in one store only tells the stores apart**, on the same rows. -/
theorem filter_trace_differs (h : SameRows s s' t t') {ks ks' : List String}
    (hkey : s.key_interner.Holds ks) (hkey' : s'.key_interner.Holds ks') {key : String}
    (hform : GrammarKey key) (hknown : (s.attribute_key_id key).isSome)
    (hunknown : s'.attribute_key_id key = none) (hpos : 0 < t.span_count) :
    s.filter_trace t (not_x key) ≠ s'.filter_trace t' (not_x key) := by
  obtain ⟨id, hid⟩ := Option.isSome_iff_exists.mp hknown
  obtain ⟨n, hn⟩ := Nat.exists_eq_add_one.mpr hpos
  rw [Store.filter_trace_eq, Store.filter_trace_eq, parse_not_x hform, parse_not_x hform, hunknown,
    unknown_hits_nothing, hid, hn, List.range_succ_eq_map]
  intro heq
  obtain ⟨indices, hindices, hresponse⟩ := Option.map_eq_some_iff.mp heq
  obtain rfl : indices = [] := congrArg FilterResponse.indices hresponse
  exact absent_hits_first (absent_of_unknown h hkey hkey' hid hunknown) "x" 0 _ hindices

end Absent

/-! ## Two runs -/

/-- Without refusals a store knows the keys that it has been shown. -/
theorem key_known_iff {m : ℕ} {es : List Event} {s : Store} (hs : exec step es (new m) = some s)
    (h : s.Unrefused) (key : String) : (s.attribute_key_id key).isSome ↔ key ∈ keys_shown es := by
  constructor
  · intro hknown
    have haccepted := ((interners_of_run hs).1.1.lookup_isSome key).mp hknown
    exact List.mem_eraseDups.mp (List.mem_of_mem_take haccepted)
  · exact (h.known hs).1 key

/-- **Filtering one trace depends on the other traces by the keys they bring,
and by nothing else.** In two runs that send the trace the same spans, refuse
no string and never evict it, every query is answered alike exactly when the
two runs have shown the same keys of the grammar. -/
theorem filter_isolated_iff {m m' : ℕ} {es es' : List Event} {s s' : Store} {trace_id : TraceId}
    (h : Undisturbed m trace_id es s) (h' : Undisturbed m' trace_id es' s')
    (hsent : sent_to es trace_id = sent_to es' trace_id) (hresident : (s.trace trace_id).isSome)
    {id : String} (hid : TraceId.from_hex id = some trace_id) :
    (∀ q, s.get_filter id (some q) = s'.get_filter id (some q))
      ↔ ∀ key, GrammarKey key → (key ∈ keys_shown es ↔ key ∈ keys_shown es') := by
  have hsame := same_trace_of_runs h h' hsent
  obtain ⟨t, ht⟩ := Option.isSome_iff_exists.mp hresident
  obtain ⟨t', ht', hrows⟩ : ∃ t', s'.trace trace_id = some t' ∧ SameRows s s' t t' := by
    unfold SameTrace at hsame
    rw [ht] at hsame
    generalize s'.trace trace_id = o' at hsame ⊢
    cases hsame with
    | some hrows => exact ⟨_, rfl, hrows⟩
  obtain ⟨⟨hkey, _⟩, _⟩ := interners_of_run h.run
  obtain ⟨⟨hkey', _⟩, _⟩ := interners_of_run h'.run
  have hmap : ∀ o o' : Option FilterResponse, o.map Response.ok = o'.map Response.ok → o = o' := by
    intro o o' ho
    exact Option.map_injective (fun _ _ => Response.ok.inj) ho
  constructor
  · intro hall key hform
    rw [← key_known_iff h.run h.unrefused, ← key_known_iff h'.run h'.unrefused]
    have heq := hall (not_x key)
    rw [Store.get_filter_of_trace hid ht, Store.get_filter_of_trace hid ht'] at heq
    have htrace := hmap _ _ heq
    -- a key that one run alone has shown would tell the two apart
    constructor
    · intro hknown
      by_contra hunknown
      exact filter_trace_differs hrows hkey hkey' hform hknown
        (Option.not_isSome_iff_eq_none.mp hunknown) (span_count_pos h.run ht) htrace
    · intro hknown
      by_contra hunknown
      exact filter_trace_differs hrows.symm hkey' hkey hform hknown
        (Option.not_isSome_iff_eq_none.mp hunknown) (span_count_pos h'.run ht') htrace.symm
  · intro hknown q
    have hkeys : SameKeys s s' := by
      intro key hform
      rw [key_known_iff h.run h.unrefused, key_known_iff h'.run h'.unrefused]
      exact hknown key hform
    rw [Store.get_filter_of_trace hid ht, Store.get_filter_of_trace hid ht',
      filter_trace_same hrows hkey hkey' hkeys]

/-- The span of the trace that both runs share. -/
def shared_span : NewSpan := { Trace.span 1 none "pay" with attributes := [("env", .str "prod")] }

/-- A span of another trace, with one attribute more. -/
def other_span (v : AttrValue) : NewSpan :=
  { Trace.span 2 none "ship" with attributes := [("env", .bool true), ("region", v)] }

def shared_first : List Event :=
  [.insert (tid 1) shared_span 0, .insert (tid 2) (other_span (.int 4)) 1, .sweep .by_id]

def shared_last : List Event :=
  [.insert (tid 3) (other_span (.str "eu")) 0, .insert (tid 1) shared_span 7, .sweep .by_id]

def shared_alone : List Event := [.insert (tid 1) shared_span 0, .sweep .by_id]

theorem shared_runs :
    (exec step shared_first (new 10000)).isSome ∧ (exec step shared_last (new 10000)).isSome
      ∧ (exec step shared_alone (new 10000)).isSome := by
  decide +kernel

theorem shared_first_undisturbed :
    Undisturbed 10000 (tid 1) shared_first (Option.get _ shared_runs.1) where
  run := (Option.some_get _).symm
  kept := by decide +kernel
  unrefused := ⟨by decide +kernel, by decide +kernel⟩

theorem shared_last_undisturbed :
    Undisturbed 10000 (tid 1) shared_last (Option.get _ shared_runs.2.1) where
  run := (Option.some_get _).symm
  kept := by decide +kernel
  unrefused := ⟨by decide +kernel, by decide +kernel⟩

theorem shared_alone_undisturbed :
    Undisturbed 10000 (tid 1) shared_alone (Option.get _ shared_runs.2.2) where
  run := (Option.some_get _).symm
  kept := by decide +kernel
  unrefused := ⟨by decide +kernel, by decide +kernel⟩

theorem filter_isolated_iff_shared :
    ∃ s s', Undisturbed 10000 (tid 1) shared_first s ∧ Undisturbed 10000 (tid 1) shared_last s'
      ∧ ∀ q, s.get_filter (tid 1).to_hex (some q) = s'.get_filter (tid 1).to_hex (some q) := by
  refine ⟨_, _, shared_first_undisturbed, shared_last_undisturbed, ?_⟩
  refine (filter_isolated_iff shared_first_undisturbed shared_last_undisturbed (by decide +kernel)
    (by decide +kernel) (by decide +kernel)).mpr fun key _ => ?_
  have hfirst : keys_shown shared_first = ["env", "env", "region"] := rfl
  have hlast : keys_shown shared_last = ["env", "region", "env"] := rfl
  simp only [hfirst, hlast, List.mem_cons, List.not_mem_nil, or_false]
  tauto

/-- `region!=x` on a span without the key: no hit while no other trace has
brought the key, a hit afterwards. -/
theorem foreign_key_shows :
    ∃ s s', Undisturbed 10000 (tid 1) shared_alone s ∧ Undisturbed 10000 (tid 1) shared_last s'
      ∧ sent_to shared_alone (tid 1) = sent_to shared_last (tid 1)
      ∧ s.get_filter (tid 1).to_hex (some "region!=x") = some (.ok ⟨[], []⟩)
      ∧ s'.get_filter (tid 1).to_hex (some "region!=x") = some (.ok ⟨[0], []⟩) :=
  ⟨_, _, shared_alone_undisturbed, shared_last_undisturbed, by decide +kernel, by decide +kernel,
    by decide +kernel⟩

end Spanfall
