/-
`Filter.lean` -- `src/api/filter.rs`: the query language of
`GET /api/traces/:id/filter`.

Texts are walked as lists of characters. The keys of the grammar are ASCII, so
the byte positions the source slices at are the character positions here. The
walks over spans stop where the source's iterators do, so a panic behind the
first term that fails is not reached.
-/
import Mathlib.Data.List.Infix
import Spanfall.Api.Traces

set_option autoImplicit false

namespace Spanfall

/-- `FilterResponse`. -/
structure FilterResponse where
  indices : List ℕ
  dropped_terms : List String
  deriving DecidableEq

/-! ## Terms -/

/-- The comparison of a term. -/
inductive Op where
  | eq
  | ne
  | gt
  | gte
  | lt
  | lte
  deriving DecidableEq

/-- `OPS`: the two-character texts come first. -/
def OPS : List (String × Op) :=
  [(">=", .gte), ("<=", .lte), ("!=", .ne), ("=", .eq), (">", .gt), ("<", .lt)]

/-- `Term`. -/
inductive Term where
  | service (op : Op) (want : String)
  | status (op : Op) (want : Int32)
  | duration (op : Op) (want : UInt64)
  | attr (op : Op) (key_id : Option UInt32) (raw : String)
  | substring (needle : String)
  deriving DecidableEq

/-- `cmp` on a totally ordered type. -/
def cmp_nat (op : Op) (got want : ℕ) : Bool :=
  match op with
  | .eq => decide (got = want)
  | .ne => decide (got ≠ want)
  | .gt => decide (got > want)
  | .gte => decide (got ≥ want)
  | .lt => decide (got < want)
  | .lte => decide (got ≤ want)

/-- `cmp` on doubles. -/
def cmp_f64 (op : Op) (got want : F64) : Bool :=
  match op with
  | .eq => got.eq want
  | .ne => !got.eq want
  | .gt => want.lt got
  | .gte => want.le got
  | .lt => got.lt want
  | .lte => got.le want

/-- `str::contains`. -/
def str_contains (s needle : String) : Bool := decide (needle.toList <:+: s.toList)

/-- The digits of an integer literal, and nothing else. -/
def parse_digits (cs : List Char) : Option ℕ :=
  match F64.take_digits cs with
  | ([], _) => none
  | (ds, []) => some (F64.decimal ds)
  | (_, _ :: _) => none

/-- `str::parse::<u64>`: a plus sign is accepted. -/
def parse_u64 (s : String) : Option UInt64 := do
  let n ← parse_digits (match s.toList with | '+' :: cs => cs | cs => cs)
  if n < 2 ^ 64 then some (UInt64.ofNat n) else none

/-- `str::parse::<i64>`. -/
def parse_i64 (s : String) : Option Int64 := do
  let (neg, cs) := F64.take_sign s.toList
  let n ← parse_digits cs
  if neg then (if n ≤ 2 ^ 63 then some (Int64.ofInt (-(n : ℤ))) else none)
  else (if n < 2 ^ 63 then some (Int64.ofInt n) else none)

/-- `attr_matches`. -/
def attr_matches (op : Op) (attr : AttrValue) (raw : String) : Bool :=
  if op = .eq ∨ op = .ne then
    let eq := match attr with
      | .str s => decide (s = raw)
      | .int i => decide (parse_i64 raw = some i)
      | .double d => ((F64.parse raw).map fun v => v.eq d).getD false
      | .bool b => decide (b = true ∧ raw = "true" ∨ b = false ∧ raw = "false")
    if op = .eq then eq else !eq
  else
    let attr_num := match attr with
      | .int i => some (F64.of_int i.toInt)
      | .double d => some d
      | .str _ => none
      | .bool _ => none
    match attr_num with
    | none => false
    | some attr_num => ((F64.parse raw).map fun want => cmp_f64 op attr_num want).getD false

/-- `attr_contains`. -/
def attr_contains (attr : AttrValue) (needle : String) : Bool :=
  match attr with
  | .str s => str_contains s needle
  | .int i => str_contains (toString i.toInt) needle
  | .double d => str_contains d.to_string needle
  | .bool b => str_contains (toString b) needle

/-- `strip_suffix`. -/
def strip_suffix (s suffix : String) : Option String :=
  if suffix.toList <:+ s.toList then
    some (String.ofList (s.toList.take (s.toList.length - suffix.toList.length)))
  else none

/-- The number and the unit of a duration, in nanoseconds. -/
def split_unit (raw : String) : String × ℕ :=
  match strip_suffix raw "ms" with
  | some n => (n, 1000000)
  | none =>
    match strip_suffix raw "us" with
    | some n => (n, 1000)
    | none =>
      match strip_suffix raw "ns" with
      | some n => (n, 1)
      | none =>
        match strip_suffix raw "s" with
        | some n => (n, 1000000000)
        | none => (raw, 1)

/-- `parse_duration`: the product is checked. -/
def parse_duration (raw : String) : Option UInt64 := do
  let (num, unit_nanos) := split_unit raw
  let n ← parse_u64 num
  if n.toNat * unit_nanos < 2 ^ 64 then some (UInt64.ofNat (n.toNat * unit_nanos)) else none

/-! ## Parsing a query -/

/-- `char::is_ascii_alphabetic`. -/
def is_ascii_alphabetic (c : Char) : Bool := c.isLower || c.isUpper

/-- `is_key_start`. -/
def is_key_start (c : Char) : Bool := is_ascii_alphabetic c || c == '_'

/-- `is_key_char`. -/
def is_key_char (c : Char) : Bool := is_ascii_alphabetic c || c.isDigit || c == '_' || c == '.'

/-- `char::is_whitespace`: the White_Space property of Unicode. -/
def is_whitespace (c : Char) : Bool :=
  let n := c.toNat
  decide (9 ≤ n ∧ n ≤ 13 ∨ n = 0x20 ∨ n = 0x85 ∨ n = 0xA0 ∨ n = 0x1680 ∨ 0x2000 ≤ n ∧ n ≤ 0x200A
    ∨ n = 0x2028 ∨ n = 0x2029 ∨ n = 0x202F ∨ n = 0x205F ∨ n = 0x3000)

/-- One token: its text, whether a quote in it was left open, and whether it
began with a quote. -/
structure Token where
  text : String
  unterminated : Bool
  starts_quoted : Bool
  deriving DecidableEq

/-- The `while` of `tokenize`. An empty token is never pushed, and leaves
`starts_quoted` as it is. -/
def tokenize_loop : List Char → List Char → Bool → Bool → List Token
  | [], cur, in_quotes, starts_quoted =>
    if cur = [] then [] else [⟨String.ofList cur, in_quotes, starts_quoted⟩]
  | '\\' :: '"' :: rest, cur, true, starts_quoted =>
    tokenize_loop rest (cur ++ ['"']) true starts_quoted
  | c :: rest, cur, in_quotes, starts_quoted =>
    if c = '"' then
      tokenize_loop rest cur (!in_quotes)
        (if cur = [] ∧ in_quotes = false then true else starts_quoted)
    else if is_whitespace c ∧ in_quotes = false then
      if cur = [] then tokenize_loop rest cur in_quotes starts_quoted
      else ⟨String.ofList cur, false, starts_quoted⟩ :: tokenize_loop rest [] in_quotes false
    else tokenize_loop rest (cur ++ [c]) in_quotes starts_quoted

/-- `tokenize`. -/
def tokenize (q : String) : List Token := tokenize_loop q.toList [] false false

/-- The `match` on the key of a `KEY OP VALUE` term. -/
def parse_key_term (store : Store) (text key : String) (op : Op) (value : String) :
    Except String Term :=
  if key = "service" ∧ (op = .eq ∨ op = .ne) then .ok (.service op value)
  else if key = "status" ∧ (op = .eq ∨ op = .ne) then
    if value = "unset" then .ok (.status op 0)
    else if value = "ok" then .ok (.status op 1)
    else if value = "error" then .ok (.status op 2)
    else .error text
  else if key = "duration" then
    match parse_duration value with
    | some nanos => .ok (.duration op nanos)
    | none => .error text
  else if key = "service" ∨ key = "status" then .error text
  else .ok (.attr op (store.attribute_key_id key) value)

/-- `parse_term`. -/
def parse_term (text : String) (starts_quoted : Bool) (store : Store) : Except String Term :=
  if starts_quoted then .ok (.substring text)
  else
    let cs := text.toList
    let key := if cs.head?.any is_key_start then cs.takeWhile is_key_char else []
    let rest := cs.drop key.length
    if key = [] ∨ rest = [] then .ok (.substring text)
    else
      match OPS.find? fun p => decide (p.1.toList <+: rest) with
      | some (lit, op) =>
        parse_key_term store text (String.ofList key) op
          (String.ofList (rest.drop lit.toList.length))
      | none =>
        if rest.head? = some '!' ∨ rest.head? = some '~' then .error text
        else .ok (.substring text)

/-- The `for` of `parse_query` over the tokens. -/
def parse_tokens (store : Store) : List Token → List Term × List String
  | [] => ([], [])
  | token :: rest =>
    let (terms, dropped) := parse_tokens store rest
    if token.unterminated then (terms, token.text :: dropped)
    else
      match parse_term token.text token.starts_quoted store with
      | .ok term => (term :: terms, dropped)
      | .error raw => (terms, raw :: dropped)

/-- `parse_query`. -/
def parse_query (q : String) (store : Store) : List Term × List String :=
  parse_tokens store (tokenize q)

/-! ## Matching -/

/-- `Term::matches`. -/
def Term.matches (self : Term) (trace : Trace) (store : Store) (idx : ℕ) : Option Bool := do
  match self with
  | .service op want =>
    let got ← (← trace.service_name_id idx).mapM store.service_name
    return match op, got with
      | .eq, some name => decide (name = want)
      | .ne, some name => decide (name ≠ want)
      | .ne, none => true
      | _, _ => false
  | .status op want =>
    match op with
    | .eq => return decide ((← trace.status_code idx) = want)
    | .ne => return decide ((← trace.status_code idx) ≠ want)
    | _ => return false
  | .duration op want =>
    let stop ← trace.end_time_unix_nano idx
    let start ← trace.start_time_unix_nano idx
    return match checked_sub stop start with
      | some d => cmp_nat op d.toNat want.toNat
      | none => false
  | .attr op (some key_id) raw =>
    let keys ← trace.attribute_keys idx
    let attrs ← trace.attributes idx
    let values := (keys.zip attrs).filterMap fun kv =>
      if kv.1 = key_id then some kv.2 else none
    return if values = [] then decide (op = .ne) else values.any fun v => attr_matches op v raw
  | .attr _ none _ => return false
  | .substring needle =>
    let name ← trace.name idx
    if str_contains name needle then return true
    else
      let attrs ← trace.attributes idx
      return attrs.any fun v => attr_contains v needle

/-- The `filter` over the indices. -/
def matching_indices (terms : List Term) (trace : Trace) (store : Store) :
    List ℕ → Option (List ℕ)
  | [] => some []
  | idx :: rest => do
    let hit ← terms.allM fun t => t.matches trace store idx
    let indices ← matching_indices terms trace store rest
    return if hit then idx :: indices else indices

namespace Store

/-- The response to a query on one trace. -/
def filter_trace (self : Store) (trace : Trace) (query : String) : Option FilterResponse := do
  let (terms, dropped_terms) := parse_query query self
  let indices ← matching_indices terms trace self (List.range trace.span_count)
  return { indices, dropped_terms }

/-- `get_filter`; `q` is the request's query parameter. -/
def get_filter (self : Store) (id : String) (q : Option String) :
    Option (Response FilterResponse) :=
  match TraceId.from_hex id with
  | none => some (.bad_request bad_trace_id)
  | some trace_id =>
    match self.trace trace_id with
    | none => some .not_found
    | some trace => (self.filter_trace trace (q.getD "")).map .ok

/-- The response is the matching indices beside the dropped terms. -/
theorem filter_trace_eq (s : Store) (t : Trace) (query : String) :
    s.filter_trace t query
      = (matching_indices (parse_query query s).1 t s (List.range t.span_count)).map fun indices =>
          { indices, dropped_terms := (parse_query query s).2 } := by
  unfold filter_trace
  dsimp only
  cases matching_indices (parse_query query s).1 t s (List.range t.span_count) <;> rfl

/-- The handler on a trace that is there. -/
theorem get_filter_of_trace {s : Store} {id : String} {trace_id : TraceId} {t : Trace}
    (hid : TraceId.from_hex id = some trace_id) (ht : s.trace trace_id = some t) (q : String) :
    s.get_filter id (some q) = (s.filter_trace t q).map .ok := by
  unfold get_filter
  rw [hid]
  dsimp only
  rw [ht]
  rfl

end Store

end Spanfall
