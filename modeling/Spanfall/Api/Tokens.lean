/-
`Tokens.lean` -- the tokenizer one character at a time, and the parser over
tokens in pieces.

`tokenize_loop` carries a current token and two flags. Each lemma of the first
section is one branch of its body, under the condition that leads there, so
that the proofs about whole texts never unfold it.
-/
import Spanfall.Api.Filter

set_option autoImplicit false

namespace Spanfall

/-! ## The characters of a key -/

/-- The code points of `[a-zA-Z0-9_.]`. -/
theorem is_key_char_range {c : Char} (h : is_key_char c = true) :
    (97 ≤ c.toNat ∧ c.toNat ≤ 122) ∨ (65 ≤ c.toNat ∧ c.toNat ≤ 90)
      ∨ (48 ≤ c.toNat ∧ c.toNat ≤ 57) ∨ c.toNat = 95 ∨ c.toNat = 46 := by
  have hlower : c.isLower = (decide ('a'.val ≤ c.val) && decide (c.val ≤ 'z'.val)) := rfl
  have hupper : c.isUpper = decide ('A'.val ≤ c.val ∧ c.val ≤ 'Z'.val) := rfl
  simp only [is_key_char, is_ascii_alphabetic, hlower, hupper, Char.isDigit,
    Bool.or_eq_true, Bool.and_eq_true, decide_eq_true_eq, beq_iff_eq] at h
  rcases h with (((h | h) | h) | rfl) | rfl
  · exact Or.inl ⟨UInt32.le_iff_toNat_le.mp h.1, UInt32.le_iff_toNat_le.mp h.2⟩
  · exact Or.inr (Or.inl ⟨UInt32.le_iff_toNat_le.mp h.1, UInt32.le_iff_toNat_le.mp h.2⟩)
  · exact Or.inr (Or.inr (Or.inl ⟨UInt32.le_iff_toNat_le.mp h.1, UInt32.le_iff_toNat_le.mp h.2⟩))
  · decide
  · decide

/-- A key may begin with any of its characters but a digit and a dot. -/
theorem is_key_char_of_start {c : Char} (h : is_key_start c = true) : is_key_char c = true := by
  simp only [is_key_start, Bool.or_eq_true] at h
  simp only [is_key_char, Bool.or_eq_true]
  rcases h with halpha | hunder
  · exact Or.inl (Or.inl (Or.inl halpha))
  · exact Or.inl (Or.inr hunder)

theorem is_key_char_ascii {c : Char} (h : is_key_char c = true) : c.toNat < 128 := by
  have hrange := is_key_char_range h
  omega

/-- A key is not split and not quoted. -/
theorem is_key_char_plain {c : Char} (h : is_key_char c = true) :
    c ≠ '"' ∧ is_whitespace c = false := by
  have hrange := is_key_char_range h
  constructor
  · rintro rfl
    have hquote : '"'.toNat = 34 := rfl
    omega
  · rw [is_whitespace, decide_eq_false_iff_not]
    omega

/-! ## One character -/

section Loop

variable {c : Char} {cur rest : List Char} {in_quotes starts_quoted : Bool}

/-- The escape. -/
theorem tokenize_loop_escape : tokenize_loop ('\\' :: '"' :: rest) cur true starts_quoted
    = tokenize_loop rest (cur ++ ['"']) true starts_quoted := by
  rw [tokenize_loop]

/-- A quote opens or closes; the first of a token leaves its mark. -/
theorem tokenize_loop_quote : tokenize_loop ('"' :: rest) cur in_quotes starts_quoted
    = tokenize_loop rest cur (!in_quotes)
        (if cur = [] ∧ in_quotes = false then true else starts_quoted) := by
  rw [tokenize_loop]
  · exact if_pos rfl
  · intro _ _ hc
    exact absurd hc (by decide)

/-- Whitespace outside quotes ends the token, if there is one. -/
theorem tokenize_loop_space (hc : is_whitespace c = true) :
    tokenize_loop (c :: rest) cur false starts_quoted
      = if cur = [] then tokenize_loop rest cur false starts_quoted
        else ⟨String.ofList cur, false, starts_quoted⟩ :: tokenize_loop rest [] false false := by
  have hquote : c ≠ '"' := by
    rintro rfl
    exact absurd hc (by decide)
  rw [tokenize_loop]
  · rw [if_neg hquote, if_pos ⟨hc, rfl⟩]
  · intro _ h
    cases h

/-- Any other character joins the token. -/
theorem tokenize_loop_plain (hquote : c ≠ '"')
    (hspace : in_quotes = false → is_whitespace c = false)
    (hescape : in_quotes = true → c = '\\' → rest.head? ≠ some '"') :
    tokenize_loop (c :: rest) cur in_quotes starts_quoted
      = tokenize_loop rest (cur ++ [c]) in_quotes starts_quoted := by
  have hsplit : ¬(is_whitespace c = true ∧ in_quotes = false) := by
    rintro ⟨hw, hq⟩
    rw [hspace hq] at hw
    cases hw
  rw [tokenize_loop]
  · rw [if_neg hquote, if_neg hsplit]
  · rintro r rfl rfl rfl
    exact hescape rfl rfl rfl

end Loop

/-- A run of characters that neither split nor quote joins the token. -/
theorem tokenize_loop_word {w : List Char} (h : ∀ c ∈ w, c ≠ '"' ∧ is_whitespace c = false)
    (rest cur : List Char) (starts_quoted : Bool) :
    tokenize_loop (w ++ rest) cur false starts_quoted
      = tokenize_loop rest (cur ++ w) false starts_quoted := by
  induction w generalizing cur with
  | nil => rw [List.nil_append, List.append_nil]
  | cons c w ih =>
    obtain ⟨hquote, hspace⟩ := h c List.mem_cons_self
    have hw : ∀ d ∈ w, d ≠ '"' ∧ is_whitespace d = false := fun d hd =>
      h d (List.mem_cons_of_mem _ hd)
    rw [List.cons_append, tokenize_loop_plain hquote (fun _ => hspace) (by simp), ih hw,
      List.append_assoc, List.singleton_append]

/-! ## Tokens in pieces -/

theorem parse_tokens_append (s : Store) (as bs : List Token) :
    parse_tokens s (as ++ bs)
      = ((parse_tokens s as).1 ++ (parse_tokens s bs).1,
          (parse_tokens s as).2 ++ (parse_tokens s bs).2) := by
  induction as with
  | nil => rfl
  | cons token as ih =>
    rw [List.cons_append, parse_tokens, parse_tokens, ih]
    dsimp only
    by_cases hopen : token.unterminated
    · rw [if_pos hopen, if_pos hopen]
      rfl
    · rw [if_neg hopen, if_neg hopen]
      cases parse_term token.text token.starts_quoted s <;> rfl

/-- Tokens that are all terms are parsed one by one. -/
theorem parse_tokens_of_ok {α : Type} (s : Store) {token : α → Token} {term : α → Term}
    {xs : List α} (h : ∀ x ∈ xs, (token x).unterminated = false
      ∧ parse_term (token x).text (token x).starts_quoted s = .ok (term x)) :
    parse_tokens s (xs.map token) = (xs.map term, []) := by
  induction xs with
  | nil => rfl
  | cons x xs ih =>
    obtain ⟨hopen, hterm⟩ := h x List.mem_cons_self
    rw [List.map_cons, parse_tokens, ih fun y hy => h y (List.mem_cons_of_mem _ hy), hopen, hterm]
    rfl

end Spanfall
