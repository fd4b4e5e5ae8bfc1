import PackageGate.Json.Value

/-!
# Records in JSON

A record with named fields is written as an object, or as an array of its
fields in order.

- `Json.Value.record?`: the value of each known field. In an object, unknown
  fields do not count, but a known one must not be repeated; in an array,
  trailing fields may be left out, and there must be no more items than fields.
- `Json.Value.text?`, `Json.Value.flag?`, …: a value of one kind, nothing else.
-/

namespace PackageGate.Json.Value

/-- The text of a string. -/
def text? : Value → Option String
  | .string text => text
  | _ => none

/-- The value of a truth value. -/
def flag? : Value → Option Bool
  | .bool b => some b
  | _ => none

/-- A value read by `read`, or nothing for `null`. -/
def optional? {α : Type} (read : Value → Option α) : Value → Option (Option α)
  | .null => some none
  | v => (read v).map some

/-- The items of an array, each read by `read`. -/
def list? {α : Type} (read : Value → Option α) : Value → Option (List α)
  | .array items => items.mapM read
  | _ => none

/-- The fields of an object whose names are all texts and whose values `read` reads. -/
def dictionary? {α : Type} (read : Value → Option α) : Value → Option (List (String × α))
  | .object fields => fields.mapM fun (name, value) => do return (← name, ← read value)
  | _ => none

/-- The named fields of an object, when every name is a text and no known one is repeated. -/
def knownFields? (known : List String) (fields : List (Option String × Value)) :
    Option (List (String × Value)) := do
  let named ← fields.mapM fun (name, value) => do return (← name, value)
  let named := named.filter fun f => known.contains f.1
  if (named.map Prod.fst).Nodup then return named else none

/-- The fields of a record with the names `known`. -/
def record? (known : List String) : Value → Option (List (String × Value))
  | .object fields => knownFields? known fields
  | .array items => if items.length ≤ known.length then some (known.zip items) else none
  | _ => none

/-- The field `name` of a record, read by `read`; `default` when it is missing. -/
def field? {α : Type} (fields : List (String × Value)) (name : String) (default : Option α)
    (read : Value → Option α) : Option α :=
  match fields.lookup name with
  | some value => read value
  | none => default

end PackageGate.Json.Value
