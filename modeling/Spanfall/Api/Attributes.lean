/-
`Attributes.lean` -- `src/api/attributes.rs`: one span's attributes, fetched by
its local index.
-/
import Spanfall.Api.Traces

set_option autoImplicit false

namespace Spanfall

/-- `AttributeEntry`. -/
structure AttributeEntry where
  key : String
  value : AttrValue
  deriving DecidableEq

namespace Store

/-- The entries of one span: keys zipped with values, the keys resolved. -/
def attribute_entries (self : Store) (trace : Trace) (idx : ℕ) :
    Option (List AttributeEntry) := do
  let keys ← trace.attribute_keys idx
  let values ← trace.attributes idx
  (keys.zip values).mapM fun kv => do
    let key ← self.attribute_key kv.1
    return { key, value := kv.2 }

/-- `get_attributes`. -/
def get_attributes (self : Store) (id : String) (idx : ℕ) :
    Option (Response (List AttributeEntry)) :=
  match TraceId.from_hex id with
  | none => some (.bad_request bad_trace_id)
  | some trace_id =>
    match self.trace trace_id with
    | none => some .not_found
    | some trace =>
      if idx ≥ trace.span_count then some .not_found
      else (self.attribute_entries trace idx).map .ok

end Store

end Spanfall
