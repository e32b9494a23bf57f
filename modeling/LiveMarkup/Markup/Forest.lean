import LiveMarkup.Markup.Source
import LiveMarkup.Markup.Token

/-!
# From tokens to a forest

The tokens of a text are folded over a stack of the elements that are still open, innermost first.

* `Source.ofTokens`: the forest that a list of tokens spells.
* `Source.parse`: the forest of a markup text.
* `Source.parseRoot`: the only element of a markup text, blank texts and comments aside.
-/

namespace LiveMarkup

open Markup

/-- Why a markup text is refused. -/
inductive MarkupError where
  /-- Some part of the text is no token, or the tags do not nest. -/
  | malformed
  /-- The text has not one element and nothing else, but this many roots. -/
  | rootCount (count : Nat)
  deriving DecidableEq, Repr

def MarkupError.message : MarkupError → String
  | malformed => "malformed markup"
  | rootCount count => s!"expected exactly one root element, found {count}"

namespace Markup

/-- The elements that never have children, in lower case. -/
def voidNames : List String :=
  ["area", "base", "br", "col", "embed", "hr", "img", "input", "link", "meta", "source", "track",
    "wbr"]

/-- Whether a name, in either case of letters, is one of an element without children. -/
def isVoid (name : String) : Bool :=
  voidNames.contains (String.ofList (name.toList.map Char.toLower))

/-- An element whose closing tag has not come yet. -/
structure OpenElement where
  name : String
  attributes : List (String × String)
  /-- The nodes before it in its parent, in reverse. -/
  before : List Source

/-- The forest of a list of tokens, after `done` in reverse within the elements `opened`. -/
def build (opened : List OpenElement) (done : List Source) : List Token → Option (List Source)
  | [] => if opened.isEmpty then some done.reverse else none
  | .text raw :: ts => build opened (.text (String.ofList (Entity.decode raw)) :: done) ts
  | .comment content :: ts => build opened (.comment content :: done) ts
  | .opening name as selfClosing :: ts =>
    if selfClosing || isVoid name then build opened (.element name as [] :: done) ts
    else build (⟨name, as, done⟩ :: opened) [] ts
  | .closing name :: ts =>
    match opened with
    | [] => none
    | e :: outer =>
      if name = e.name then build outer (.element e.name e.attributes done.reverse :: e.before) ts
      else none

end Markup

namespace Source

/-- The forest that a list of tokens spells. -/
def ofTokens (ts : List Token) : Option (List Source) := build [] [] ts

/-- The forest of a markup text. -/
def parse (markup : String) : Except MarkupError (List Source) :=
  match (Token.scan markup.toList).bind ofTokens with
  | some forest => .ok forest
  | none => .error .malformed

/-- The only element of a markup text, blank texts and comments aside. -/
def parseRoot (markup : String) : Except MarkupError Source := do
  let forest ← parse markup
  match forest.filter fun s => !s.isBlank && !s.isComment with
  | [element name as children] => .ok (element name as children)
  | roots => .error (.rootCount roots.length)

end Source

end LiveMarkup
