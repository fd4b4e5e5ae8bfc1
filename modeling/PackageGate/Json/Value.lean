/-!
# JSON values

- `Json.Value`: a JSON text as a value. Objects keep their fields in the order
  of the text, repeated names included, so that a reader of records can refuse
  a repeated field.

A string of JSON may escape half of a surrogate pair, which no text can hold.
Such a string is `none`: it is well formed, and only a reader that asks for its
text refuses it.
-/

namespace PackageGate.Json

/-- A JSON value. -/
inductive Value
  | null
  | bool (b : Bool)
  | number (literal : String)
  | string (text : Option String)
  | array (items : List Value)
  | object (fields : List (Option String × Value))
deriving Inhabited

end PackageGate.Json
