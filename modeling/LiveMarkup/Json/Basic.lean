import LiveMarkup.Number.Decimal

/-!
# JSON values

The value that a JSON text spells. Every number is a binary64 number; the members of an object are
kept as they were written, repeated names included.
-/

namespace LiveMarkup

/-- A JSON value. -/
inductive Json where
  | null
  | bool (b : Bool)
  | number (n : Number)
  | string (s : String)
  | array (items : List Json)
  | object (members : List (String × Json))

end LiveMarkup
