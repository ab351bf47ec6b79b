/-
`Json.lean` -- JSON values, as a client reads them.

Reading never fails on the way: what is not there is `null` ([`Json.get`]), and
only the last step asks what it has found. The numbers are integers.
-/
import Mathlib.Data.List.Basic
import Mathlib.Data.Int.Notation

set_option autoImplicit false

namespace Lib

inductive Json where
  | null
  | bool (b : Bool)
  | number (n : ℤ)
  | string (s : String)
  | array (items : List Json)
  | object (fields : List (String × Json))

namespace Json

variable {α : Type*}

/-- The value under `key`. -/
def get : Json → String → Json
  | object fields, key => ((fields.find? fun f => decide (f.1 = key)).map Prod.snd).getD null
  | _, _ => null

def as_array : Json → Option (List Json)
  | array items => some items
  | _ => none

def as_str : Json → Option String
  | string s => some s
  | _ => none

/-- What may be missing is written as `null`. -/
def option (encode : α → Json) : Option α → Json
  | none => null
  | some a => encode a

/-- An array of values of one kind. -/
def list (encode : α → Json) (l : List α) : Json := array (l.map encode)

@[simp] theorem get_head (key : String) (value : Json) (fields : List (String × Json)) :
    (object ((key, value) :: fields)).get key = value := by
  simp [get]

end Json

end Lib
