/-
`Juxtapose.lean` -- two queries with a space between them.

The tokenizer reads the second query from the state the first one and the space
leave behind. When every quote of the first is closed that state is the initial
one but for `starts_quoted`, which an empty token does not reset: the rest of
the law is plain ([`tokenize_loop_juxtapose`]), and the flag is still up exactly
when the first query ends in empty quotes ([`flag_left_iff`]). A first token
that begins with a key and an operator is then read as a quoted text.
-/
import Spanfall.Api.Tokens
import Spanfall.Api.Total
import Spanfall.Store.Hex

set_option autoImplicit false

namespace Spanfall

open Lib.Runs

/-! ## Quotes of a text -/

/-- Whether a text, begun inside quotes or not, ends inside quotes.
Backslash-quote inside quotes is no quote. -/
def ends_inside : List Char → Bool → Bool
  | [], inside => inside
  | '\\' :: '"' :: rest, true => ends_inside rest true
  | c :: rest, inside => ends_inside rest (if c = '"' then !inside else inside)

/-- Every quote opened in the text is closed in it. -/
def QuotesClosed (q : String) : Prop := ends_inside q.toList false = false

instance (q : String) : Decidable (QuotesClosed q) := inferInstanceAs (Decidable (_ = _))

/-- Nothing but whitespace and empty quotes. -/
inductive Blank : List Char → Prop
  | nil : Blank []
  | space {c : Char} {cs : List Char} (hc : is_whitespace c = true) (h : Blank cs) : Blank (c :: cs)
  | quotes {cs : List Char} (h : Blank cs) : Blank ('"' :: '"' :: cs)

/-- Behind some whitespace outside quotes there is only whitespace and empty
quotes, and there are some of the latter. -/
def EmptyTail (cs : List Char) (inside : Bool) : Prop :=
  ∃ front c tail, cs = front ++ c :: tail ∧ is_whitespace c = true
    ∧ ends_inside front inside = false ∧ Blank tail ∧ '"' ∈ tail

/-- The last word of the query is a pair of empty quotes: as in `a=b ""`, or in
`""` alone. -/
def EndsInEmptyQuotes (q : String) : Prop :=
  Blank q.toList ∧ '"' ∈ q.toList ∨ EmptyTail q.toList false

/-- The text, read with an empty token, ends with one and with the mark of a
quote. -/
def LeavesMark (cs : List Char) (inside starts_quoted : Bool) : Prop :=
  if inside then ∃ tail, cs = '"' :: tail ∧ Blank tail
  else Blank cs ∧ (starts_quoted = true ∨ '"' ∈ cs)

/-! ## One character -/

section Cons

variable {c : Char} {rest : List Char} {inside : Bool}

theorem ends_inside_cons (hescape : inside = true → c = '\\' → rest.head? ≠ some '"') :
    ends_inside (c :: rest) inside = ends_inside rest (if c = '"' then !inside else inside) := by
  rw [ends_inside]
  rintro r rfl rfl rfl
  exact hescape rfl rfl rfl

theorem blank_space (hc : is_whitespace c = true) : Blank (c :: rest) ↔ Blank rest := by
  refine ⟨fun h => ?_, Blank.space hc⟩
  cases h with
  | space _ h => exact h
  | quotes h => exact absurd hc (by decide)

theorem blank_quote : Blank ('"' :: rest) ↔ ∃ tail, rest = '"' :: tail ∧ Blank tail := by
  constructor
  · intro h
    cases h with
    | space hc _ => exact absurd hc (by decide)
    | quotes h => exact ⟨_, rfl, h⟩
  · rintro ⟨tail, rfl, h⟩
    exact Blank.quotes h

theorem not_blank (hquote : c ≠ '"') (hc : is_whitespace c = false) : ¬Blank (c :: rest) := by
  intro h
  cases h with
  | space hc' _ =>
    rw [hc] at hc'
    cases hc'
  | quotes _ => exact hquote rfl

theorem emptyTail_escape : EmptyTail ('\\' :: '"' :: rest) true ↔ EmptyTail rest true := by
  constructor
  · rintro ⟨front, c, tail, he, hc, hfront, htail, hmem⟩
    -- neither character of the escape is whitespace, so both belong to the front
    rcases front with _ | ⟨d, _ | ⟨e, front⟩⟩
    · obtain ⟨rfl, _⟩ := List.cons.inj he
      exact absurd hc (by decide)
    · obtain ⟨_, he⟩ := List.cons.inj he
      obtain ⟨rfl, _⟩ := List.cons.inj he
      exact absurd hc (by decide)
    · obtain ⟨rfl, rfl, hrest⟩ : d = '\\' ∧ e = '"' ∧ rest = front ++ c :: tail := by
        simpa [eq_comm] using he
      rw [ends_inside] at hfront
      exact ⟨front, c, tail, hrest, hc, hfront, htail, hmem⟩
  · rintro ⟨front, c, tail, rfl, hc, hfront, htail, hmem⟩
    refine ⟨'\\' :: '"' :: front, c, tail, rfl, hc, ?_, htail, hmem⟩
    rw [ends_inside]
    exact hfront

theorem emptyTail_cons (hescape : inside = true → c = '\\' → rest.head? ≠ some '"') :
    EmptyTail (c :: rest) inside
      ↔ (is_whitespace c = true ∧ inside = false ∧ Blank rest ∧ '"' ∈ rest)
        ∨ EmptyTail rest (if c = '"' then !inside else inside) := by
  have front_escape : ∀ {front : List Char} {d : Char} {tail : List Char},
      rest = front ++ d :: tail → is_whitespace d = true →
      inside = true → c = '\\' → front.head? ≠ some '"' := by
    rintro front d tail rfl hd hin hc hhead
    refine hescape hin hc ?_
    cases front with
    | nil => cases hhead
    | cons e front => exact hhead
  constructor
  · rintro ⟨front, d, tail, he, hd, hfront, htail, hmem⟩
    cases front with
    | nil =>
      obtain ⟨rfl, rfl⟩ := List.cons.inj he
      exact Or.inl ⟨hd, hfront, htail, hmem⟩
    | cons e front =>
      obtain ⟨rfl, hrest⟩ : e = c ∧ rest = front ++ d :: tail := by
        simpa [eq_comm] using he
      rw [ends_inside_cons (front_escape hrest hd)] at hfront
      exact Or.inr ⟨front, d, tail, hrest, hd, hfront, htail, hmem⟩
  · rintro (⟨hc, hin, htail, hmem⟩ | ⟨front, d, tail, he, hd, hfront, htail, hmem⟩)
    · exact ⟨[], c, rest, rfl, hc, hin, htail, hmem⟩
    · refine ⟨c :: front, d, tail, by rw [he, List.cons_append], hd, ?_, htail, hmem⟩
      rw [ends_inside_cons (front_escape he hd)]
      exact hfront

end Cons

/-! ## The state behind a text -/

theorem quote_marks {cur : List Char} {inside starts_quoted : Bool}
    (hmark : inside = true → cur = [] → starts_quoted = true) (_ : (!inside) = true)
    (hcur : cur = []) : (if cur = [] ∧ inside = false then true else starts_quoted) = true := by
  cases inside with
  | false => exact if_pos ⟨hcur, rfl⟩
  | true => rw [if_neg (by simp), hmark rfl hcur]

theorem leavesMark_quote {cur rest : List Char} {inside starts_quoted : Bool}
    (hmark : inside = true → cur = [] → starts_quoted = true) :
    cur = [] ∧ LeavesMark ('"' :: rest) inside starts_quoted
      ↔ cur = [] ∧ LeavesMark rest (!inside)
          (if cur = [] ∧ inside = false then true else starts_quoted) := by
  refine and_congr_right fun hcur => ?_
  cases inside with
  | false => simp [LeavesMark, blank_quote]
  | true => simp [LeavesMark, hmark rfl hcur]

/-- **The tokens of a closed text and of what follows it.** Behind the text and
a space the loop is in its initial state, but for the flag. -/
theorem tokenize_loop_juxtapose {cs cur : List Char} {inside starts_quoted : Bool}
    (hclosed : ends_inside cs inside = false)
    (hmark : inside = true → cur = [] → starts_quoted = true) :
    ∃ flag : Bool,
      (∀ next, tokenize_loop (cs ++ ' ' :: next) cur inside starts_quoted
        = tokenize_loop cs cur inside starts_quoted ++ tokenize_loop next [] false flag)
      ∧ (flag = true ↔ EmptyTail cs inside ∨ cur = [] ∧ LeavesMark cs inside starts_quoted) := by
  induction cs, inside using ends_inside.induct generalizing cur starts_quoted with
  | case1 inside =>
    obtain rfl : inside = false := hclosed
    have htail : ¬EmptyTail [] false := by
      rintro ⟨front, c, tail, he, _⟩
      simp at he
    have hspace : ∀ next, tokenize_loop ([] ++ ' ' :: next) cur false starts_quoted = _ :=
      fun next => tokenize_loop_space (by decide)
    by_cases hcur : cur = []
    · refine ⟨starts_quoted, fun next => ?_, ?_⟩
      · rw [hspace, if_pos hcur, hcur, tokenize_loop, if_pos rfl, List.nil_append]
      · simp [htail, hcur, LeavesMark, Blank.nil]
    · refine ⟨false, fun next => ?_, ?_⟩
      · rw [hspace, if_neg hcur, tokenize_loop, if_neg hcur, List.singleton_append]
      · simp [htail, hcur]
  | case2 rest ih =>
    rw [ends_inside] at hclosed
    have hmark' : true = true → cur ++ ['"'] = [] → starts_quoted = true := by simp
    obtain ⟨flag, hloop, hflag⟩ := ih hclosed hmark'
    refine ⟨flag, fun next => ?_, ?_⟩
    · rw [List.cons_append, List.cons_append, tokenize_loop_escape, tokenize_loop_escape, hloop]
    · rw [hflag, emptyTail_escape]
      simp [LeavesMark]
  | case3 c rest inside hne ih =>
    have hescape : inside = true → c = '\\' → rest.head? ≠ some '"' := by
      intro hin hc hhead
      cases rest with
      | nil => cases hhead
      | cons d rest => exact hne rest hin hc (by rw [Option.some.inj hhead])
    rw [ends_inside_cons hescape] at hclosed
    rw [emptyTail_cons hescape]
    by_cases hquote : c = '"'
    · -- a quote: the token stays, and an empty one is marked
      subst hquote
      rw [if_pos rfl] at hclosed ih ⊢
      obtain ⟨flag, hloop, hflag⟩ :=
        @ih cur (if cur = [] ∧ inside = false then true else starts_quoted) hclosed
          (quote_marks hmark)
      refine ⟨flag, fun next => ?_, ?_⟩
      · rw [List.cons_append, tokenize_loop_quote, tokenize_loop_quote, hloop]
      · rw [hflag, leavesMark_quote hmark]
        simp [show is_whitespace '"' = false by decide]
    rw [if_neg hquote] at hclosed ih ⊢
    by_cases hsplit : is_whitespace c = true ∧ inside = false
    · -- whitespace outside quotes: the token ends, or is still empty
      obtain ⟨hc, rfl⟩ := hsplit
      by_cases hcur : cur = []
      · subst hcur
        obtain ⟨flag, hloop, hflag⟩ := @ih [] starts_quoted hclosed (by simp)
        refine ⟨flag, fun next => ?_, ?_⟩
        · rw [List.cons_append, tokenize_loop_space hc, tokenize_loop_space hc, if_pos rfl,
            if_pos rfl, hloop]
        · have hmem : '"' ∈ c :: rest ↔ '"' ∈ rest := by simp [Ne.symm hquote]
          simp only [hflag, LeavesMark, blank_space hc, hc, hmem, Bool.false_eq_true, if_false]
          grind
      · obtain ⟨flag, hloop, hflag⟩ := @ih [] false hclosed (by simp)
        refine ⟨flag, fun next => ?_, ?_⟩
        · rw [List.cons_append, tokenize_loop_space hc, tokenize_loop_space hc, if_neg hcur,
            if_neg hcur, hloop, List.cons_append]
        · simp only [hflag, LeavesMark, hc, hcur, Bool.false_eq_true, if_false]
          grind
    · -- any other character makes the token nonempty
      have hplain : inside = false → is_whitespace c = false := fun hin =>
        Bool.eq_false_iff.mpr fun hc => hsplit ⟨hc, hin⟩
      obtain ⟨flag, hloop, hflag⟩ := @ih (cur ++ [c]) starts_quoted hclosed (by simp)
      refine ⟨flag, fun next => ?_, ?_⟩
      · have hescape' : inside = true → c = '\\' → (rest ++ ' ' :: next).head? ≠ some '"' := by
          intro hin hc
          cases rest with
          | nil => simp
          | cons d rest => exact hescape hin hc
        rw [List.cons_append, tokenize_loop_plain hquote hplain hescape',
          tokenize_loop_plain hquote hplain hescape, hloop]
      · have hblank : ¬LeavesMark (c :: rest) inside starts_quoted := by
          cases inside with
          | false => simp [LeavesMark, not_blank hquote (hplain rfl)]
          | true => simp [LeavesMark, hquote]
        have hout : ¬(is_whitespace c = true ∧ inside = false ∧ Blank rest ∧ '"' ∈ rest) :=
          fun h => hsplit ⟨h.1, h.2.1⟩
        simp [hflag, hblank, hout]

/-- The tokens of two queries with a space between them. -/
theorem tokenize_juxtapose {q₁ : String} (hclosed : QuotesClosed q₁) :
    ∃ flag : Bool,
      (∀ q₂, tokenize (q₁ ++ " " ++ q₂) = tokenize q₁ ++ tokenize_loop q₂.toList [] false flag)
      ∧ (flag = true ↔ EndsInEmptyQuotes q₁) := by
  obtain ⟨flag, hloop, hflag⟩ := @tokenize_loop_juxtapose q₁.toList [] false false hclosed
    (fun h => absurd h (by decide))
  refine ⟨flag, fun q₂ => ?_, ?_⟩
  · have htext : (q₁ ++ " " ++ q₂).toList = q₁.toList ++ ' ' :: q₂.toList := by
      simp [String.toList_append]
    rw [tokenize, htext, hloop]
    rfl
  · rw [hflag, EndsInEmptyQuotes]
    simp [LeavesMark, or_comm]

/-! ## The indices of two lists of terms -/

/-- Span `idx` passes every term. -/
def Hits (terms : List Term) (t : Trace) (s : Store) (idx : ℕ) : Prop :=
  terms.allM (fun term => term.matches t s idx) = some true

instance (terms : List Term) (t : Trace) (s : Store) (idx : ℕ) : Decidable (Hits terms t s idx) :=
  inferInstanceAs (Decidable (_ = _))

/-- The walk keeps the indices that pass, and panics where a test does. -/
theorem matching_indices_eq_some {terms : List Term} {t : Trace} {s : Store} {idxs l : List ℕ} :
    matching_indices terms t s idxs = some l
      ↔ (∀ i ∈ idxs, (terms.allM fun term : Term => term.matches t s i).isSome)
        ∧ l = idxs.filter fun i => decide (Hits terms t s i) := by
  induction idxs generalizing l with
  | nil =>
    rw [matching_indices, Option.some.injEq, List.filter_nil]
    exact ⟨fun h => ⟨fun i hi => absurd hi List.not_mem_nil, h.symm⟩, fun h => h.2.symm⟩
  | cons i idxs ih =>
    rw [matching_indices, List.filter_cons, List.forall_mem_cons]
    cases hhit : terms.allM fun term => term.matches t s i with
    | none =>
      simp only [Option.bind_eq_bind, Option.bind_none, Option.isSome_none, Bool.false_eq_true,
        reduceCtorEq, false_and]
    | some hit =>
      have hits : Hits terms t s i ↔ hit = true := by rw [Hits, hhit, Option.some.injEq]
      simp only [Option.bind_eq_bind, Option.bind_some, Option.bind_eq_some_iff, ih, hits,
        Option.pure_def, Option.some.injEq, Option.isSome_some, true_and, Bool.decide_eq_true]
      constructor
      · rintro ⟨l', ⟨hall, rfl⟩, rfl⟩
        exact ⟨hall, rfl⟩
      · rintro ⟨hall, rfl⟩
        exact ⟨_, ⟨hall, rfl⟩, rfl⟩

/-- **Terms side by side keep the indices that both lists keep.** -/
theorem matching_indices_append {ts us : List Term} {t : Trace} {s : Store} {idxs l₁ l₂ : List ℕ}
    (h₁ : matching_indices ts t s idxs = some l₁) (h₂ : matching_indices us t s idxs = some l₂) :
    matching_indices (ts ++ us) t s idxs = some (l₁.filter fun i => decide (i ∈ l₂)) := by
  obtain ⟨hsome₁, rfl⟩ := matching_indices_eq_some.mp h₁
  obtain ⟨hsome₂, rfl⟩ := matching_indices_eq_some.mp h₂
  have hits : ∀ i ∈ idxs, Hits (ts ++ us) t s i ↔ Hits ts t s i ∧ Hits us t s i := by
    intro i hi
    obtain ⟨a, ha⟩ := Option.isSome_iff_exists.mp (hsome₁ i hi)
    rw [Hits, Hits, Hits, Lib.Vec.allM_append, ha]
    cases a <;> simp
  refine matching_indices_eq_some.mpr ⟨fun i hi => ?_, ?_⟩
  · obtain ⟨a, ha⟩ := Option.isSome_iff_exists.mp (hsome₁ i hi)
    rw [Lib.Vec.allM_append, ha]
    cases a with
    | false => rfl
    | true => exact hsome₂ i hi
  · rw [List.filter_filter]
    refine List.filter_congr fun i hi => ?_
    simp [hits i hi, hi, Bool.and_comm]

/-! ## The law -/

/-- Filtering by `q₁` and `q₂` with a space between them is filtering by both:
the indices of both responses, the dropped terms of the one and then of the
other. -/
def Juxtaposes (s : Store) (id q₁ q₂ : String) : Prop :=
  ∀ r₁ r₂, s.get_filter id (some q₁) = some (.ok r₁) → s.get_filter id (some q₂) = some (.ok r₂) →
    s.get_filter id (some (q₁ ++ " " ++ q₂))
      = some (.ok { indices := r₁.indices.filter fun i => decide (i ∈ r₂.indices)
                    dropped_terms := r₁.dropped_terms ++ r₂.dropped_terms })

/-- A response that lists indices is the filter of a trace that is there. -/
theorem get_filter_eq_ok {s : Store} {id q : String} {r : FilterResponse}
    (h : s.get_filter id (some q) = some (.ok r)) :
    ∃ trace_id t, TraceId.from_hex id = some trace_id ∧ s.trace trace_id = some t
      ∧ matching_indices (parse_query q s).1 t s (List.range t.span_count) = some r.indices
      ∧ r.dropped_terms = (parse_query q s).2 := by
  cases hid : TraceId.from_hex id with
  | none =>
    rw [Store.get_filter, hid] at h
    cases h
  | some trace_id =>
    cases ht : s.trace trace_id with
    | none =>
      rw [Store.get_filter, hid] at h
      dsimp only at h
      rw [ht] at h
      cases h
    | some t =>
      rw [Store.get_filter_of_trace hid ht, Store.filter_trace_eq, Option.map_map,
        Option.map_eq_some_iff] at h
      obtain ⟨indices, hindices, hr⟩ := h
      obtain rfl := Response.ok.inj hr
      exact ⟨trace_id, t, rfl, ht, hindices, rfl⟩

/-- Queries whose tokens are those of both, one after the other, juxtapose. -/
theorem juxtaposes_of_tokens {q₁ q₂ : String}
    (h : tokenize (q₁ ++ " " ++ q₂) = tokenize q₁ ++ tokenize q₂) (s : Store) (id : String) :
    Juxtaposes s id q₁ q₂ := by
  intro r₁ r₂ h₁ h₂
  obtain ⟨trace_id, t, hid, ht, hindices₁, hdropped₁⟩ := get_filter_eq_ok h₁
  obtain ⟨trace_id', t', hid', ht', hindices₂, hdropped₂⟩ := get_filter_eq_ok h₂
  obtain rfl : trace_id = trace_id' := Option.some.inj (hid.symm.trans hid')
  obtain rfl : t = t' := Option.some.inj (ht.symm.trans ht')
  have hparse : parse_query (q₁ ++ " " ++ q₂) s = ((parse_query q₁ s).1 ++ (parse_query q₂ s).1,
      (parse_query q₁ s).2 ++ (parse_query q₂ s).2) := by
    rw [parse_query, h, parse_tokens_append]
    rfl
  rw [Store.get_filter_of_trace hid ht, Store.filter_trace_eq, hparse,
    matching_indices_append hindices₁ hindices₂, hdropped₁, hdropped₂]
  rfl

/-- One span, of the service `checkout`. -/
def one_checkout : List Event :=
  [.insert (tid 1) { Trace.span 1 none "pay" with service_name := some "checkout" } 0]

theorem one_checkout_runs : (exec Store.step one_checkout (Store.new 80)).isSome := by
  decide +kernel

/-- A run whose store answers every query on its one trace. -/
theorem one_checkout_answers (q : String) :
    ∃ r, (Option.get _ one_checkout_runs).get_filter (tid 1).to_hex (some q) = some (.ok r) := by
  obtain ⟨t, ht⟩ : ∃ t, (Option.get _ one_checkout_runs).trace (tid 1) = some t :=
    Option.isSome_iff_exists.mp (by decide +kernel)
  have hs := (Option.some_get one_checkout_runs).symm
  have hsmall : Store.AttrsBelow (Store.new 80) one_checkout :=
    Store.AttrsBelow.of_sent (by decide +kernel)
  have hh := Store.holds_of_run hs hsmall
  obtain ⟨r, hr⟩ := Option.isSome_iff_exists.mp
    ((hh.in_range ht (hsmall.last hs ht)).filter_trace_isSome q)
  rw [Store.get_filter_of_trace (tid 1).from_hex_to_hex ht, hr]
  exact ⟨r, rfl⟩

/-- An unknown operator is dropped from a query of its own, and is a substring
term behind the flag. -/
theorem misread_alone (s : Store) :
    parse_tokens s (tokenize "service~x") = ([], ["service~x"]) := by
  have htokens : tokenize "service~x" = [⟨"service~x", false, false⟩] := by decide +kernel
  rw [htokens]
  rfl

theorem misread_quoted (s : Store) :
    parse_tokens s (tokenize_loop "service~x".toList [] false true)
      = ([.substring "service~x"], []) := by
  have htokens : tokenize_loop "service~x".toList [] false true = [⟨"service~x", false, true⟩] := by
    decide +kernel
  rw [htokens]
  rfl

/-- **A closed query juxtaposes with every other, in every reachable store,
exactly when it does not end in empty quotes.** -/
theorem juxtaposes_iff {q₁ : String} (hclosed : QuotesClosed q₁) :
    (∀ q₂ m es s id, exec Store.step es (Store.new m) = some s → Juxtaposes s id q₁ q₂)
      ↔ ¬EndsInEmptyQuotes q₁ := by
  obtain ⟨flag, htokens, hflag⟩ := tokenize_juxtapose hclosed
  constructor
  · -- an unknown operator behind the flag is no longer dropped
    intro hall hempty
    rw [hflag.mpr hempty] at htokens
    obtain ⟨r₁, h₁⟩ := one_checkout_answers q₁
    obtain ⟨r₂, h₂⟩ := one_checkout_answers "service~x"
    have h := hall "service~x" 80 one_checkout _ _ (Option.some_get _).symm r₁ r₂ h₁ h₂
    obtain ⟨_, _, _, _, _, hdropped₁⟩ := get_filter_eq_ok h₁
    obtain ⟨_, _, _, _, _, hdropped₂⟩ := get_filter_eq_ok h₂
    obtain ⟨_, _, _, _, _, hdropped⟩ := get_filter_eq_ok h
    rw [parse_query, htokens, parse_tokens_append, misread_quoted] at hdropped
    rw [parse_query, misread_alone] at hdropped₂
    have hlen := congrArg List.length hdropped
    rw [hdropped₁, hdropped₂] at hlen
    simp [parse_query] at hlen
  · intro hempty q₂ m es s id _
    rw [← hflag, Bool.not_eq_true] at hempty
    rw [hempty] at htokens
    exact juxtaposes_of_tokens (htokens q₂) s id

theorem juxtaposes_iff_quoted :
    (∀ q₂ m es s id, exec Store.step es (Store.new m) = some s →
        Juxtaposes s id "note=\"a b\"" q₂)
      ↔ ¬EndsInEmptyQuotes "note=\"a b\"" :=
  juxtaposes_iff (by decide)

/-- Empty quotes in front of `service=checkout` match every span, and so does
the term alone on a span of that service; together they match none. -/
theorem empty_quotes_hide_service :
    ∃ s, exec Store.step one_checkout (Store.new 80) = some s ∧ QuotesClosed "\"\""
      ∧ s.get_filter (tid 1).to_hex (some "\"\"") = some (.ok ⟨[0], []⟩)
      ∧ s.get_filter (tid 1).to_hex (some "service=checkout") = some (.ok ⟨[0], []⟩)
      ∧ s.get_filter (tid 1).to_hex (some ("\"\"" ++ " " ++ "service=checkout"))
          = some (.ok ⟨[], []⟩) :=
  ⟨Option.get _ one_checkout_runs, (Option.some_get _).symm, by decide, by decide +kernel,
    by decide +kernel, by decide +kernel⟩

end Spanfall
