import Rigging.Assoc
import Rigging.Number.Binary64

/-!
# JSON values

Objects keep the order of their keys.  Whole numbers and decimal numbers are told apart, since they
are written differently.
-/

namespace Rigging

/-- A JSON value. -/
inductive Json where
  | null
  | bool (value : Bool)
  | int (value : Int)
  | float (value : Number.Binary64)
  | string (value : String)
  | array (items : List Json)
  | object (members : List (String × Json))
deriving Repr, Inhabited

namespace Json

/-- The member of an object with the given key; other values have none. -/
def get? (key : String) : Json → Option Json
  | object members => Assoc.get? key members
  | _ => none

/-- The text of a string value. -/
def string? : Json → Option String
  | string s => some s
  | _ => none

/-- The items of an array; other values have none. -/
def items : Json → List Json
  | array xs => xs
  | _ => []

/-- The members of an object; other values have none. -/
def members : Json → List (String × Json)
  | object ms => ms
  | _ => []

/-- Whether a value is an object. -/
def isObject : Json → Bool
  | object _ => true
  | _ => false

/-- Whether a value counts as true: all but null, false, zero and what is empty. -/
def truthy : Json → Bool
  | null => false
  | bool b => b
  | int n => n != 0
  | float x => !x.isZero
  | string s => s != ""
  | array xs => !xs.isEmpty
  | object ms => !ms.isEmpty

/-- A string, or null where there is none. -/
def ofString? : Option String → Json
  | some s => string s
  | none => null

/-- A list of strings. -/
def strings (xs : List String) : Json :=
  array (xs.map string)

end Json

end Rigging
