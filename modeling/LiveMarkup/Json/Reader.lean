import LiveMarkup.Json.Token

/-!
# Reading JSON

The tokens of a text are folded over a stack of the arrays and objects that are still open.
Fewer than `depthLimit` of them may be open at a time.

* `Json.read`: the value of a JSON text, or nothing if the text is not JSON.
-/

namespace LiveMarkup.Json

/-- The number of open arrays and objects at which a text is refused. -/
def depthLimit : Nat := 128

/-- An array or object part way through, its items in reverse. -/
inductive Open where
  | array (items : List Json)
  | object (members : List (String × Json))
  /-- An object with a name whose value is still to come. -/
  | member (members : List (String × Json)) (name : String)

/-- What may come next. -/
inductive Expect where
  /-- A value. -/
  | value
  /-- A value or the end of the array just opened. -/
  | firstItem
  /-- A name or the end of the object just opened. -/
  | firstName
  /-- A name. -/
  | name
  /-- A colon. -/
  | colon
  /-- A comma or the end of what is open. -/
  | separator
  /-- The end of the text, after its value. -/
  | finish (value : Json)

/-- What is open, and what may come next. -/
structure Builder where
  opened : List Open
  expect : Expect

/-- A complete value takes its place. -/
def Builder.place (opened : List Open) (v : Json) : Option Builder :=
  match opened with
  | [] => some ⟨[], .finish v⟩
  | .array items :: outer => some ⟨.array (v :: items) :: outer, .separator⟩
  | .member members name :: outer => some ⟨.object ((name, v) :: members) :: outer, .separator⟩
  | .object _ :: _ => none

/-- A new array or object is opened. -/
def Builder.enter (opened : List Open) (o : Open) (expect : Expect) : Option Builder :=
  if opened.length + 1 < depthLimit then some ⟨o :: opened, expect⟩ else none

/-- A token where a value may stand. -/
def Builder.value (opened : List Open) : Token → Option Builder
  | .scalar v => Builder.place opened v
  | .openArray => Builder.enter opened (.array []) .firstItem
  | .openObject => Builder.enter opened (.object []) .firstName
  | _ => none

/-- The innermost open array or object is closed. -/
def Builder.close : List Open → Token → Option Builder
  | .array items :: outer, .closeArray => Builder.place outer (.array items.reverse)
  | .object members :: outer, .closeObject => Builder.place outer (.object members.reverse)
  | _, _ => none

/-- A token where a name may stand. -/
def Builder.name : List Open → Token → Option Builder
  | .object members :: outer, .scalar (.string s) => some ⟨.member members s :: outer, .colon⟩
  | _, _ => none

/-- One more token. -/
def Builder.step (b : Builder) (t : Token) : Option Builder :=
  match b.expect, t with
  | .value, t => Builder.value b.opened t
  | .firstItem, .closeArray => Builder.close b.opened .closeArray
  | .firstItem, t => Builder.value b.opened t
  | .firstName, .closeObject => Builder.close b.opened .closeObject
  | .firstName, t => Builder.name b.opened t
  | .name, t => Builder.name b.opened t
  | .colon, .colon => some ⟨b.opened, .value⟩
  | .separator, .comma =>
    match b.opened with
    | .array _ :: _ => some ⟨b.opened, .value⟩
    | .object _ :: _ => some ⟨b.opened, .name⟩
    | _ => none
  | .separator, t => Builder.close b.opened t
  | _, _ => none

/-- The value of a JSON text. -/
def read [Rounding] (s : String) : Option Json := do
  let b ← (← tokens s).foldlM Builder.step ⟨[], .value⟩
  match b.expect with
  | .finish v => some v
  | _ => none

end LiveMarkup.Json
