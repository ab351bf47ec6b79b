/-
`Splitting.lean` -- what becomes of every term the user typed.

A query's terms are the runs of characters between whitespace outside quotes
([`raw_terms`]), and a quote, escaped or not, belongs to its run. The tokenizer
collects a run without its quotes and pushes what it has collected if that is
not empty. So a run of nothing but quotes leaves no token: it is neither parsed
nor reported, not even where its last quote was never closed
([`accounted_iff`]).
-/
import Spanfall.Api.Tokens

set_option autoImplicit false

namespace Spanfall

/-! ## Terms as typed -/

/-- A run of characters, and whether the text ends in it inside a quote. -/
structure RawTerm where
  chars : List Char
  unclosed : Bool
  deriving DecidableEq

/-- A character more at the head of the first run. -/
def RawTerm.cons (cs : List Char) (self : RawTerm) : RawTerm :=
  { self with chars := cs ++ self.chars }

/-- The runs of a text between whitespace outside quotes, the first one and the
others. Inside quotes a backslash takes the quote behind it with it. -/
def runs : List Char → Bool → RawTerm × List RawTerm
  | [], in_quotes => (⟨[], in_quotes⟩, [])
  | '\\' :: '"' :: rest, true =>
    let (first, others) := runs rest true
    (first.cons ['\\', '"'], others)
  | c :: rest, in_quotes =>
    if is_whitespace c ∧ in_quotes = false then
      let (first, others) := runs rest false
      (⟨[], false⟩, first :: others)
    else
      let (first, others) := runs rest (if c = '"' then !in_quotes else in_quotes)
      (first.cons [c], others)

/-- The terms of a query: the runs that are not empty. -/
def raw_terms (q : String) : List RawTerm :=
  let (first, others) := runs q.toList false
  (first :: others).filter fun r => decide (r.chars ≠ [])

/-- A run without its quotes: what the tokenizer collects of it. -/
def unquote : List Char → Bool → List Char
  | [], _ => []
  | '\\' :: '"' :: rest, true => '"' :: unquote rest true
  | c :: rest, in_quotes =>
    if c = '"' then unquote rest (!in_quotes) else c :: unquote rest in_quotes

/-! ## Every term accounted for -/

/-- The terms of a list of outcomes. -/
def parsed (outcomes : List (Except String Term)) : List Term :=
  outcomes.filterMap fun
    | .ok term => some term
    | .error _ => none

/-- The texts that a list of outcomes drops. -/
def dropped (outcomes : List (Except String Term)) : List String :=
  outcomes.filterMap fun
    | .ok _ => none
    | .error text => some text

/-- What is to become of one term: it is dropped under its own text, or it is
parsed, and then every quote in it was closed. -/
def RawTerm.Becomes (s : Store) (self : RawTerm) : Except String Term → Prop
  | .ok term => self.unclosed = false
    ∧ ∃ starts_quoted,
      parse_term (String.ofList (unquote self.chars false)) starts_quoted s = .ok term
  | .error text => text = String.ofList (unquote self.chars false)

/-- Every term of the query, in order, is parsed or dropped. -/
def Accounted (s : Store) (q : String) : Prop :=
  ∃ outcomes : List (Except String Term),
    List.Forall₂ (RawTerm.Becomes s) (raw_terms q) outcomes
    ∧ parse_query q s = (parsed outcomes, dropped outcomes)

/-! ## One character -/

section Char

variable {c : Char} {rest : List Char} {in_quotes : Bool}

/-- No escape begins at `c`. -/
def Unescaped (c : Char) (rest : List Char) (in_quotes : Bool) : Prop :=
  in_quotes = true → c = '\\' → rest.head? ≠ some '"'

theorem unescaped_of_split (h : ∀ r, in_quotes = true → c = '\\' → rest = '"' :: r → False) :
    Unescaped c rest in_quotes := by
  intro hq hc hhead
  cases rest with
  | nil => cases hhead
  | cons d r => exact h r hq hc (by rw [Option.some.inj hhead])

theorem runs_escape : runs ('\\' :: '"' :: rest) true
    = ((runs rest true).1.cons ['\\', '"'], (runs rest true).2) := by
  rw [runs]

theorem runs_space (hc : is_whitespace c = true) : runs (c :: rest) false
    = (⟨[], false⟩, (runs rest false).1 :: (runs rest false).2) := by
  rw [runs]
  · rw [if_pos ⟨hc, rfl⟩]
  · intro _ h
    cases h

theorem runs_plain (hspace : ¬(is_whitespace c = true ∧ in_quotes = false))
    (hescape : Unescaped c rest in_quotes) :
    runs (c :: rest) in_quotes
      = ((runs rest (if c = '"' then !in_quotes else in_quotes)).1.cons [c],
          (runs rest (if c = '"' then !in_quotes else in_quotes)).2) := by
  rw [runs]
  · rw [if_neg hspace]
  · rintro r rfl rfl rfl
    exact hescape rfl rfl rfl

theorem unquote_escape : unquote ('\\' :: '"' :: rest) true = '"' :: unquote rest true := by
  rw [unquote]

theorem unquote_plain (hescape : Unescaped c rest in_quotes) :
    unquote (c :: rest) in_quotes
      = if c = '"' then unquote rest (!in_quotes) else c :: unquote rest in_quotes := by
  rw [unquote]
  rintro r rfl rfl rfl
  exact hescape rfl rfl rfl

end Char

/-- **A run leaves nothing exactly when it is nothing but quotes.** -/
theorem unquote_eq_nil_iff (cs : List Char) (in_quotes : Bool) :
    unquote cs in_quotes = [] ↔ ∀ c ∈ cs, c = '"' := by
  induction cs, in_quotes using unquote.induct with
  | case1 => simp [unquote]
  | case2 rest => simp [unquote_escape]
  | case3 rest in_quotes hescape ih =>
    rw [unquote_plain (unescaped_of_split hescape), if_pos rfl, ih]
    simp
  | case4 c rest in_quotes hescape hquote ih =>
    rw [unquote_plain (unescaped_of_split hescape), if_neg hquote]
    simp [hquote]

/-- Inside quotes nothing is split off. -/
theorem runs_head (cs : List Char) : (runs cs true).1.chars.head? = cs.head? := by
  cases cs with
  | nil => rfl
  | cons c rest =>
    by_cases hescape : Unescaped c rest true
    · rw [runs_plain (by simp) hescape]
      rfl
    · unfold Unescaped at hescape
      simp only [Classical.not_imp, not_not, true_and] at hescape
      obtain ⟨rfl, hhead⟩ := hescape
      cases rest with
      | nil => cases hhead
      | cons d rest =>
        obtain rfl : d = '"' := Option.some.inj hhead
        rw [runs_escape]
        rfl

/-! ## The tokenizer -/

/-- What the tokenizer makes of a run: its text, and whether it was left
open. -/
def Token.left (k : Token) : List Char × Bool := (k.text.toList, k.unterminated)

/-- What is left of a run that begins outside quotes. -/
def RawTerm.left (r : RawTerm) : List Char × Bool := (unquote r.chars false, r.unclosed)

/-- **The tokens are what is left of the runs**, where something is. The first
run has been begun: `cur` is what is left of it so far. -/
theorem tokenize_loop_runs (cs cur : List Char) (in_quotes starts_quoted : Bool) :
    (tokenize_loop cs cur in_quotes starts_quoted).map Token.left
      = ((cur ++ unquote (runs cs in_quotes).1.chars in_quotes, (runs cs in_quotes).1.unclosed)
          :: (runs cs in_quotes).2.map RawTerm.left).filter fun p => decide (p.1 ≠ []) := by
  induction cs, cur, in_quotes, starts_quoted using tokenize_loop.induct with
  | case1 in_quotes starts_quoted => rfl
  | case2 cur in_quotes starts_quoted hcur =>
    simp [tokenize_loop, hcur, runs, unquote, Token.left]
  | case3 rest cur starts_quoted ih =>
    rw [tokenize_loop_escape, ih, runs_escape]
    simp [RawTerm.cons, unquote_escape]
  | case4 rest cur in_quotes starts_quoted hescape ih =>
    have hplain : ∀ rest, Unescaped '"' rest in_quotes := fun _ _ h => absurd h (by decide)
    have hspace : ¬(is_whitespace '"' = true ∧ in_quotes = false) := fun h =>
      absurd h.1 (by decide)
    rw [tokenize_loop_quote, ih, runs_plain hspace (hplain rest), if_pos rfl]
    simp only [RawTerm.cons, List.singleton_append]
    rw [unquote_plain (hplain _), if_pos rfl]
  | case5 c rest in_quotes starts_quoted hescape hquote hspace ih =>
    -- whitespace behind nothing: the run before it leaves nothing
    obtain ⟨hspace, rfl⟩ := hspace
    rw [tokenize_loop_space hspace, if_pos rfl, ih, runs_space hspace]
    simp [RawTerm.left, unquote]
  | case6 c rest cur in_quotes starts_quoted hescape hquote hspace hcur ih =>
    obtain ⟨hspace, rfl⟩ := hspace
    rw [tokenize_loop_space hspace, if_neg hcur, List.map_cons, ih, runs_space hspace]
    simp [RawTerm.left, unquote, hcur, Token.left]
  | case7 c rest cur in_quotes starts_quoted hescape hquote hspace ih =>
    have hplain := unescaped_of_split hescape
    have hnospace : in_quotes = false → is_whitespace c = false := by
      intro hq
      by_contra hw
      exact hspace ⟨Bool.not_eq_false _ |>.mp hw, hq⟩
    -- a backslash in front of the rest of its run is one in front of the text
    have hplain' : Unescaped c (runs rest in_quotes).1.chars in_quotes := by
      rintro rfl hc
      rw [runs_head]
      exact hplain rfl hc
    rw [tokenize_loop_plain hquote hnospace hplain, ih, runs_plain hspace hplain, if_neg hquote]
    simp only [RawTerm.cons, List.singleton_append]
    rw [unquote_plain hplain', if_neg hquote, List.append_assoc, List.singleton_append]

/-- The tokens of a query, and its terms. -/
theorem tokenize_raw_terms (q : String) :
    (tokenize q).map Token.left
      = ((raw_terms q).map RawTerm.left).filter fun p => decide (p.1 ≠ []) := by
  have hempty : ∀ l : List RawTerm, (l.map RawTerm.left).filter (fun p => decide (p.1 ≠ []))
      = ((l.filter fun r => decide (r.chars ≠ [])).map RawTerm.left).filter
          fun p => decide (p.1 ≠ []) := by
    intro l
    rw [List.filter_map, List.filter_map, List.filter_filter]
    congr 1
    apply List.filter_congr
    intro r _
    -- an empty run leaves nothing
    by_cases hr : r.chars = []
    · simp [RawTerm.left, hr, unquote]
    · simp [hr]
  rw [tokenize, tokenize_loop_runs, raw_terms]
  obtain ⟨first, others⟩ := runs q.toList false
  rw [List.nil_append]
  exact hempty (first :: others)

/-! ## The parser -/

/-- What `parse_query` makes of one token. -/
def outcome (s : Store) (k : Token) : Except String Term :=
  if k.unterminated then .error k.text else parse_term k.text k.starts_quoted s

theorem parse_key_term_error {s : Store} {text key value raw : String} {op : Op}
    (h : parse_key_term s text key op value = .error raw) : raw = text := by
  unfold parse_key_term at h
  split_ifs at h with _ _ _ _ _ hduration
  · exact (Except.error.inj h).symm
  · cases hparse : parse_duration value with
    | some nanos =>
      rw [hparse] at h
      cases h
    | none =>
      rw [hparse] at h
      exact (Except.error.inj h).symm
  · exact (Except.error.inj h).symm

/-- A term that is not parsed is handed back as it is. -/
theorem parse_term_error {s : Store} {text raw : String} {starts_quoted : Bool}
    (h : parse_term text starts_quoted s = .error raw) : raw = text := by
  rw [parse_term] at h
  by_cases hquoted : starts_quoted = true
  · rw [if_pos hquoted] at h
    cases h
  · rw [if_neg hquoted] at h
    dsimp only at h
    generalize (if text.toList.head?.any is_key_start then text.toList.takeWhile is_key_char
      else []) = key at h
    by_cases hword : key = [] ∨ text.toList.drop key.length = []
    · rw [if_pos hword] at h
      cases h
    · rw [if_neg hword] at h
      cases hop : OPS.find? fun p => decide (p.1.toList <+: text.toList.drop key.length) with
      | some p =>
        rw [hop] at h
        exact parse_key_term_error h
      | none =>
        rw [hop] at h
        dsimp only at h
        split_ifs at h
        exact (Except.error.inj h).symm

/-- One token, left of one run. -/
theorem becomes_outcome {s : Store} {r : RawTerm} {k : Token} (h : k.left = r.left) :
    r.Becomes s (outcome s k) := by
  have htext : k.text = String.ofList (unquote r.chars false) := by
    rw [← String.ofList_toList (s := k.text)]
    exact congrArg String.ofList (congrArg Prod.fst h)
  have hopen : k.unterminated = r.unclosed := congrArg Prod.snd h
  rw [outcome, hopen, htext]
  by_cases hr : r.unclosed = true
  · rw [if_pos hr]
    rfl
  · rw [if_neg hr]
    cases hp : parse_term (String.ofList (unquote r.chars false)) k.starts_quoted s with
    | ok term => exact ⟨Bool.eq_false_iff.mpr hr, k.starts_quoted, hp⟩
    | error text => exact parse_term_error hp

theorem becomes_outcomes {s : Store} {rs : List RawTerm} {tokens : List Token}
    (h : tokens.map Token.left = rs.map RawTerm.left) :
    List.Forall₂ (RawTerm.Becomes s) rs (tokens.map (outcome s)) := by
  induction rs generalizing tokens with
  | nil =>
    rw [List.map_eq_nil_iff.mp h]
    exact .nil
  | cons r rs ih =>
    obtain ⟨k, tokens, rfl, hk, hrest⟩ := List.map_eq_cons_iff.mp h
    exact .cons (becomes_outcome hk) (ih hrest)

theorem parse_tokens_eq (s : Store) (tokens : List Token) :
    parse_tokens s tokens
      = (parsed (tokens.map (outcome s)), dropped (tokens.map (outcome s))) := by
  induction tokens with
  | nil => rfl
  | cons k tokens ih =>
    rw [parse_tokens, ih, List.map_cons, outcome]
    by_cases hopen : k.unterminated = true
    · simp only [hopen, if_true]
      rfl
    · simp only [hopen, Bool.false_eq_true, if_false]
      cases parse_term k.text k.starts_quoted s <;> rfl

theorem parsed_dropped_length (outcomes : List (Except String Term)) :
    (parsed outcomes).length + (dropped outcomes).length = outcomes.length := by
  induction outcomes with
  | nil => rfl
  | cons o outcomes ih =>
    cases o with
    | error text =>
      simp only [parsed, dropped, List.filterMap_cons, List.length_cons] at ih ⊢
      omega
    | ok term =>
      simp only [parsed, dropped, List.filterMap_cons, List.length_cons] at ih ⊢
      omega

/-- **Every term is accounted for exactly when each has a character that is no
quote.** In any store, for any query. -/
theorem accounted_iff (s : Store) (q : String) :
    Accounted s q ↔ ∀ r ∈ raw_terms q, ∃ c ∈ r.chars, c ≠ '"' := by
  have hleft : ∀ r : RawTerm, r.left.1 ≠ [] ↔ ∃ c ∈ r.chars, c ≠ '"' := by
    intro r
    rw [RawTerm.left, ne_eq, unquote_eq_nil_iff]
    simp
  have htokens := tokenize_raw_terms q
  constructor
  · rintro ⟨outcomes, hall, hparse⟩
    -- as many tokens as terms, so no term was filtered out
    have hcount : (tokenize q).length = (raw_terms q).length := by
      rw [parse_query, parse_tokens_eq, Prod.mk.injEq] at hparse
      have hlen := parsed_dropped_length ((tokenize q).map (outcome s))
      rw [hparse.1, hparse.2, parsed_dropped_length, List.length_map] at hlen
      rw [← hlen, hall.length_eq]
    have hkept : ((raw_terms q).map RawTerm.left).filter (fun p => decide (p.1 ≠ []))
        = (raw_terms q).map RawTerm.left := by
      refine List.filter_sublist.eq_of_length ?_
      rw [← htokens, List.length_map, List.length_map, hcount]
    intro r hr
    have hne := List.filter_eq_self.mp hkept r.left (List.mem_map_of_mem hr)
    exact (hleft r).mp (of_decide_eq_true hne)
  · intro h
    have hkept : ((raw_terms q).map RawTerm.left).filter (fun p => decide (p.1 ≠ []))
        = (raw_terms q).map RawTerm.left := by
      apply List.filter_eq_self.mpr
      intro p hp
      obtain ⟨r, hr, rfl⟩ := List.mem_map.mp hp
      exact decide_eq_true ((hleft r).mpr (h r hr))
    rw [hkept] at htokens
    exact ⟨(tokenize q).map (outcome s), becomes_outcomes htokens, by
      rw [parse_query, parse_tokens_eq]⟩

/-- A quote alone is a term that is never closed, and it is not reported. -/
theorem lone_quote_lost : ¬Accounted (Store.new 0) "\"" := by
  rintro ⟨outcomes, hall, hparse⟩
  have hraw : raw_terms "\"" = [⟨['"'], true⟩] := by decide
  have hquery : parse_query "\"" (Store.new 0) = ([], []) := by decide
  rw [hraw] at hall
  rw [hquery, Prod.mk.injEq] at hparse
  have hlen := parsed_dropped_length outcomes
  rw [← hparse.1, ← hparse.2, ← hall.length_eq] at hlen
  exact absurd hlen (by decide)

end Spanfall
