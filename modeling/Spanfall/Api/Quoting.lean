/-
`Quoting.lean` -- quoted text protects its value, with one exception.

A list of terms is printed the way the grammar writes them, every text inside
quotes and every quote in it escaped ([`print`]). The tokenizer gives each
term's text back without the quotes ([`tokenize_print`]), and there the
exception comes from: the operator is recognised in the text without the
quotes, so a `>` or `<` in front of a value that begins with `=` is read as
`>=` or `<=` ([`parse_print`]).
-/
import Spanfall.Api.Tokens

set_option autoImplicit false

namespace Spanfall

/-! ## Printing -/

/-- A filter term as a text can name it. -/
inductive PrintedTerm where
  | substring (s : String)
  | comparison (key : String) (op : Op) (v : String)
  deriving DecidableEq

/-- The text of an operator in the grammar. -/
def Op.literal : Op → String
  | .eq => "="
  | .ne => "!="
  | .gt => ">"
  | .gte => ">="
  | .lt => "<"
  | .lte => "<="

/-- Every quote becomes backslash-quote. -/
def escape (cs : List Char) : List Char :=
  cs.flatMap fun c => if c = '"' then ['\\', '"'] else [c]

def quoted (s : String) : List Char := '"' :: (escape s.toList ++ ['"'])

def PrintedTerm.print : PrintedTerm → List Char
  | .substring s => quoted s
  | .comparison key op v => key.toList ++ (op.literal.toList ++ quoted v)

/-- The terms' texts, joined by single spaces. -/
def print (ts : List PrintedTerm) : String :=
  String.ofList ([' '].intercalate (ts.map PrintedTerm.print))

/-- `[a-zA-Z_][a-zA-Z0-9_.]*`. -/
def KeyForm (key : String) : Prop :=
  ∃ c cs, key.toList = c :: cs ∧ is_key_start c = true ∧ ∀ d ∈ cs, is_key_char d = true

/-- The terms the grammar has a text for. -/
def PrintedTerm.Printable : PrintedTerm → Prop
  | .substring s => s ≠ "" ∧ s.toList.getLast? ≠ some '\\'
  | .comparison key _ v => KeyForm key ∧ key ∉ ["service", "status", "duration"]
      ∧ v.toList.getLast? ≠ some '\\'

/-- The term that the text stands for. -/
def PrintedTerm.resolve (s : Store) : PrintedTerm → Term
  | .substring needle => .substring needle
  | .comparison key op v => .attr op (s.attribute_key_id key) v

/-! ## Through the tokenizer -/

/-- **An escaped text, read inside quotes**, is the text. A backslash at its end
would escape the closing quote. -/
theorem tokenize_loop_escaped {text : List Char} (hlast : text.getLast? ≠ some '\\')
    (rest cur : List Char) (starts_quoted : Bool) :
    tokenize_loop (escape text ++ '"' :: rest) cur true starts_quoted
      = tokenize_loop rest (cur ++ text) false starts_quoted := by
  induction text generalizing cur with
  | nil =>
    rw [escape, List.flatMap_nil, List.nil_append, tokenize_loop_quote, List.append_nil]
    rw [if_neg (by simp), Bool.not_true]
  | cons c text ih =>
    have htail : text.getLast? ≠ some '\\' := by
      intro h
      rw [List.getLast?_cons, h] at hlast
      exact hlast rfl
    have hsplit : escape (c :: text) = (if c = '"' then ['\\', '"'] else [c]) ++ escape text := by
      rw [escape, List.flatMap_cons, escape]
    rw [hsplit, List.append_assoc]
    by_cases hquote : c = '"'
    · rw [if_pos hquote, List.cons_append, List.singleton_append, tokenize_loop_escape,
        ih htail, hquote, List.append_assoc, List.singleton_append]
    · -- a backslash is followed by the text's next character, and that is no quote
      have hescape : c = '\\' → (escape text ++ '"' :: rest).head? ≠ some '"' := by
        intro hc
        cases text with
        | nil => exact absurd (congrArg some hc) hlast
        | cons d text =>
          rw [escape, List.flatMap_cons]
          by_cases hd : d = '"'
          · simp [hd]
          · simp [hd]
      have hstep : tokenize_loop (c :: (escape text ++ '"' :: rest)) cur true starts_quoted
          = tokenize_loop (escape text ++ '"' :: rest) (cur ++ [c]) true starts_quoted :=
        tokenize_loop_plain hquote (fun h => absurd h (by decide)) fun _ => hescape
      rw [if_neg hquote, List.singleton_append, hstep, ih htail, List.append_assoc,
        List.singleton_append]

/-- The text of a term without its quotes. -/
def PrintedTerm.text : PrintedTerm → List Char
  | .substring s => s.toList
  | .comparison key op v => key.toList ++ (op.literal.toList ++ v.toList)

/-- Only a substring term begins with its quote. -/
def PrintedTerm.starts_quoted : PrintedTerm → Bool
  | .substring _ => true
  | .comparison _ _ _ => false

def PrintedTerm.token (t : PrintedTerm) : Token := ⟨String.ofList t.text, false, t.starts_quoted⟩

theorem literal_plain (op : Op) : ∀ c ∈ op.literal.toList, c ≠ '"' ∧ is_whitespace c = false := by
  intro c hc
  have hall : op.literal.toList.all (fun c => decide (c ≠ '"' ∧ is_whitespace c = false)) = true := by
    cases op <;> decide
  exact of_decide_eq_true (List.all_eq_true.mp hall c hc)

theorem KeyForm.key_chars {key : String} (h : KeyForm key) :
    key.toList ≠ [] ∧ ∀ c ∈ key.toList, is_key_char c = true := by
  obtain ⟨c, cs, hkey, hstart, hcs⟩ := h
  rw [hkey]
  refine ⟨List.cons_ne_nil c cs, fun d hd => ?_⟩
  rcases List.mem_cons.mp hd with rfl | hd
  · exact is_key_char_of_start hstart
  · exact hcs d hd

/-- One term, read from the start of a token. -/
theorem tokenize_loop_print {t : PrintedTerm} (h : t.Printable) (rest : List Char) :
    tokenize_loop (t.print ++ rest) [] false false
      = tokenize_loop rest t.text false t.starts_quoted := by
  cases t with
  | substring s =>
    rw [PrintedTerm.print, quoted, List.cons_append, List.append_assoc, List.singleton_append,
      tokenize_loop_quote, if_pos ⟨rfl, rfl⟩, Bool.not_false, tokenize_loop_escaped h.2]
    rfl
  | comparison key op v =>
    obtain ⟨hform, _, hlast⟩ := h
    obtain ⟨hne, hkey⟩ := hform.key_chars
    rw [PrintedTerm.print, quoted, List.append_assoc, List.append_assoc,
      tokenize_loop_word (fun c hc => is_key_char_plain (hkey c hc)),
      tokenize_loop_word (literal_plain op), List.cons_append, List.append_assoc,
      List.singleton_append, tokenize_loop_quote, if_neg (by simp [hne]), Bool.not_false,
      tokenize_loop_escaped hlast]
    simp only [List.nil_append, List.append_assoc]
    rfl

/-- **The tokens of a printed list** are its terms' texts without the quotes. -/
theorem tokenize_print {ts : List PrintedTerm} (h : ∀ t ∈ ts, t.Printable) :
    tokenize (print ts) = ts.map PrintedTerm.token := by
  have htext : ∀ t ∈ ts, t.text ≠ [] := by
    intro t ht
    cases t with
    | substring s => exact fun hempty => (h _ ht).1 (String.toList_eq_nil_iff.mp hempty)
    | comparison key op v =>
      exact fun hempty => (h _ ht).1.key_chars.1 (List.append_eq_nil_iff.mp hempty).1
  rw [tokenize, print, String.toList_ofList]
  induction ts with
  | nil => rfl
  | cons t ts ih =>
    have hne := htext t List.mem_cons_self
    have ht := h t List.mem_cons_self
    have ih := ih (fun u hu => h u (List.mem_cons_of_mem _ hu))
      fun u hu => htext u (List.mem_cons_of_mem _ hu)
    cases ts with
    | nil =>
      have hloop := tokenize_loop_print ht []
      rw [List.append_nil] at hloop
      rw [List.map_singleton, List.intercalate_singleton, hloop, tokenize_loop, if_neg hne]
      rfl
    | cons u us =>
      rw [List.map_cons, List.map_cons, List.intercalate_cons_cons, List.append_assoc,
        tokenize_loop_print ht, List.singleton_append, tokenize_loop_space (by decide), if_neg hne]
      rw [List.map_cons] at ih
      rw [ih]
      rfl

/-! ## Through the parser -/

/-- The operator and the value that are read off an operator in front of a
value. -/
def read_op (op : Op) (v : List Char) : Op × List Char :=
  match op, v with
  | .gt, '=' :: rest => (.gte, rest)
  | .lt, '=' :: rest => (.lte, rest)
  | op, v => (op, v)

/-- The term that the parser makes of a printed one. -/
def PrintedTerm.parsed (s : Store) : PrintedTerm → Term
  | .substring needle => .substring needle
  | .comparison key op v =>
    .attr (read_op op v.toList).1 (s.attribute_key_id key) (String.ofList (read_op op v.toList).2)

/-- An operator is read as itself, unless it is `>` or `<` and the value lends
it an equals sign. -/
theorem read_op_eq_self (op : Op) (v : List Char) :
    read_op op v = (op, v) ↔ (op = .gt ∨ op = .lt → v.head? ≠ some '=') := by
  cases v with
  | nil => cases op <;> simp [read_op]
  | cons c v =>
    by_cases hc : c = '='
    · cases op <;> simp [read_op, hc]
    · cases op <;> simp [read_op, hc]

/-- `OPS` finds what [`read_op`] says. -/
theorem find_op (op : Op) (v : List Char) :
    ∃ lit : String, OPS.find? (fun p => decide (p.1.toList <+: op.literal.toList ++ v))
        = some (lit, (read_op op v).1)
      ∧ (op.literal.toList ++ v).drop lit.toList.length = (read_op op v).2 := by
  by_cases hself : op = .gt ∨ op = .lt → v.head? ≠ some '='
  · -- the longer operators do not match, and the operator itself is the first that does
    rw [(read_op_eq_self op v).mpr hself]
    refine ⟨op.literal, ?_, List.drop_left⟩
    cases v with
    | nil => cases op <;> simp [OPS, Op.literal]
    | cons c v =>
      have hc : op = .gt ∨ op = .lt → '=' ≠ c := fun hop e => hself hop (congrArg some e.symm)
      cases op <;> simp [OPS, Op.literal, hc]
  · rw [Classical.not_imp, not_not] at hself
    obtain ⟨hop, hhead⟩ := hself
    obtain ⟨rest, rfl⟩ : ∃ rest, v = '=' :: rest := by
      cases v with
      | nil => cases hhead
      | cons c rest => exact ⟨rest, by rw [Option.some.inj hhead]⟩
    rcases hop with rfl | rfl
    · exact ⟨">=", by simp [OPS, Op.literal, read_op], rfl⟩
    · exact ⟨"<=", by simp [OPS, Op.literal, read_op], rfl⟩

/-- A text that begins with a key is parsed at the operator found behind it. -/
theorem parse_term_of_key {key lit : String} {rest : List Char} {op : Op} (s : Store)
    (hform : KeyForm key) (hrest : ∀ c, rest.head? = some c → is_key_char c = false)
    (hop : OPS.find? (fun p => decide (p.1.toList <+: rest)) = some (lit, op)) :
    parse_term (String.ofList (key.toList ++ rest)) false s
      = parse_key_term s (String.ofList (key.toList ++ rest)) key op
          (String.ofList (rest.drop lit.toList.length)) := by
  obtain ⟨hne, hchars⟩ := hform.key_chars
  have htake : (key.toList ++ rest).takeWhile is_key_char = key.toList := by
    rw [List.takeWhile_append_of_pos hchars]
    cases rest with
    | nil => rw [List.takeWhile_nil, List.append_nil]
    | cons c rest =>
      rw [List.takeWhile_cons_of_neg (by rw [hrest c rfl]; exact Bool.false_ne_true),
        List.append_nil]
  have hhead : (key.toList ++ rest).head?.any is_key_start = true := by
    obtain ⟨c, cs, hkey, hstart, _⟩ := hform
    rw [hkey]
    exact hstart
  have hnonempty : rest ≠ [] := by
    rintro rfl
    -- no operator is a prefix of nothing
    simp [OPS] at hop
  unfold parse_term
  rw [if_neg Bool.false_ne_true]
  simp only [String.toList_ofList, hhead, if_true, htake, List.drop_left, hop, hne, hnonempty,
    or_self, if_false, String.ofList_toList]

/-- A key that no built-in term claims names an attribute. -/
theorem parse_key_term_of_attr {key : String} (h : key ∉ ["service", "status", "duration"])
    (s : Store) (text : String) (op : Op) (value : String) :
    parse_key_term s text key op value = .ok (.attr op (s.attribute_key_id key) value) := by
  simp only [List.mem_cons, List.not_mem_nil, or_false, not_or] at h
  obtain ⟨hservice, hstatus, hduration⟩ := h
  simp only [parse_key_term, hservice, hstatus, hduration, false_and, or_self, if_false]

theorem literal_head (op : Op) (v : List Char) (c : Char)
    (hc : (op.literal.toList ++ v).head? = some c) : is_key_char c = false := by
  cases op <;> · obtain rfl := Option.some.inj hc; decide

/-- `KEY OP VALUE`, the value not joined with the operator. -/
theorem parse_comparison {key v : String} {op : Op} (h : KeyForm key)
    (hplain : op = .gt ∨ op = .lt → v.toList.head? ≠ some '=') (s : Store) :
    parse_term (key ++ op.literal ++ v) false s
      = parse_key_term s (key ++ op.literal ++ v) key op v := by
  have htext : key ++ op.literal ++ v
      = String.ofList (key.toList ++ (op.literal.toList ++ v.toList)) := by
    rw [← String.toList_inj, String.toList_ofList, String.toList_append, String.toList_append,
      List.append_assoc]
  obtain ⟨lit, hfind, hvalue⟩ := find_op op v.toList
  have hparse := parse_term_of_key s h (literal_head op v.toList) hfind
  rwa [hvalue, (read_op_eq_self op v.toList).mpr hplain, String.ofList_toList, ← htext] at hparse

/-- **A printed term is parsed alone**, whatever the store. -/
theorem parse_term_print {t : PrintedTerm} (h : t.Printable) (s : Store) :
    parse_term t.token.text t.token.starts_quoted s = .ok (t.parsed s) := by
  cases t with
  | substring needle =>
    rw [PrintedTerm.token, PrintedTerm.text, String.ofList_toList]
    rfl
  | comparison key op v =>
    obtain ⟨hform, hattr, _⟩ := h
    obtain ⟨lit, hfind, hvalue⟩ := find_op op v.toList
    have hparse := parse_term_of_key s hform (literal_head op v.toList) hfind
    rwa [parse_key_term_of_attr hattr, hvalue] at hparse

/-- The parse of a printed list, in full. -/
theorem parse_print {ts : List PrintedTerm} (h : ∀ t ∈ ts, t.Printable) (s : Store) :
    parse_query (print ts) s = (ts.map (·.parsed s), []) := by
  rw [parse_query, tokenize_print h]
  exact parse_tokens_of_ok s fun t ht => ⟨rfl, parse_term_print (h t ht) s⟩

/-- A comparison comes back as itself exactly when its operator does. -/
theorem PrintedTerm.parsed_eq_resolve (s : Store) (t : PrintedTerm) :
    t.parsed s = t.resolve s
      ↔ ∀ key op v, t = .comparison key op v → op = .gt ∨ op = .lt → v.toList.head? ≠ some '=' := by
  cases t with
  | substring needle =>
    refine iff_of_true rfl ?_
    intro key op v h
    cases h
  | comparison key op v =>
    have hself := read_op_eq_self op v.toList
    constructor
    · intro h key' op' v' he
      obtain ⟨rfl, rfl, rfl⟩ := PrintedTerm.comparison.inj he
      obtain ⟨hop, _, hv⟩ := Term.attr.inj h
      rw [String.ofList_eq] at hv
      exact hself.mp (Prod.ext hop hv)
    · intro h
      have hread := hself.mpr (h key op v rfl)
      rw [PrintedTerm.parsed, hread, String.ofList_toList]
      rfl

/-- **Parsing undoes printing, but for an equals sign behind `>` or `<`.** In
every store the terms of a printed list come back, in order, with their
operators and texts, and nothing is dropped, exactly when no value compared by
`>` or `<` begins with `=`. -/
theorem parse_print_iff {ts : List PrintedTerm} (h : ∀ t ∈ ts, t.Printable) (s : Store) :
    parse_query (print ts) s = (ts.map (·.resolve s), [])
      ↔ ∀ key op v, .comparison key op v ∈ ts → op = .gt ∨ op = .lt →
          v.toList.head? ≠ some '=' := by
  rw [parse_print h, Prod.mk.injEq, and_iff_left rfl, List.map_inj_left]
  constructor
  · intro hall key op v hmem hop
    exact (PrintedTerm.parsed_eq_resolve s _).mp (hall _ hmem) key op v rfl hop
  · intro hall t ht
    refine (PrintedTerm.parsed_eq_resolve s t).mpr ?_
    rintro key op v rfl hop
    exact hall key op v ht hop

/-- A text with quotes, spaces and an operator in it, and a comparison whose
value has all of them. -/
def printed_terms : List PrintedTerm :=
  [.substring "say \"a = b\"", .comparison "http.url" .gte "= \"x y\" >1"]

theorem printed_terms_printable : ∀ t ∈ printed_terms, t.Printable := by
  intro t ht
  rcases List.mem_pair.mp ht with rfl | rfl
  · exact ⟨by decide, by decide⟩
  · exact ⟨⟨'h', "ttp.url".toList, by decide, by decide, List.all_eq_true.mp (by decide)⟩, by decide,
      by decide⟩

theorem parse_print_iff_terms :
    parse_query (print printed_terms) (Store.new 0)
        = (printed_terms.map (·.resolve (Store.new 0)), []) := by
  refine (parse_print_iff printed_terms_printable (Store.new 0)).mpr ?_
  intro key op v hmem hop
  obtain ⟨_, rfl, _⟩ : key = "http.url" ∧ op = .gte ∧ v = _ := by
    simpa [printed_terms] using hmem
  exact absurd hop (by decide)

/-- `size` above a text that begins with an equals sign: printed `size>"=9"`,
parsed `size >= 9`. -/
def size_above : PrintedTerm := .comparison "size" .gt "=9"

theorem equals_joins_operator :
    size_above.Printable
      ∧ parse_query (print [size_above]) (Store.new 0)
          ≠ ([size_above].map (·.resolve (Store.new 0)), []) := by
  have hprintable : size_above.Printable :=
    ⟨⟨'s', "ize".toList, by decide, by decide, List.all_eq_true.mp (by decide)⟩, by decide,
      by decide⟩
  refine ⟨hprintable, fun h => ?_⟩
  rw [parse_print (by simpa using hprintable)] at h
  have hop := congrArg (fun p => p.1.map fun
    | .attr op _ _ => some op
    | _ => none) h
  exact absurd hop (by decide)

end Spanfall
