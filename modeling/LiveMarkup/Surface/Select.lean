import LiveMarkup.Surface.Basic
import LiveMarkup.Text.Blank

/-!
# Selectors

A selector names an element by its `id`, by one of its classes, or by its tag.

* `Surface.query`: the first node in document order that a selector names.
-/

namespace LiveMarkup

/-- What a selector asks of an element. -/
inductive Selector where
  | byId (id : String)
  | byClass (name : String)
  | byTag (tag : String)

namespace Selector

/-- The selector that a text spells, blanks at its ends aside. -/
def read (text : String) : Selector :=
  match Text.trimBlank text.toList with
  | '#' :: cs => byId (String.ofList cs)
  | '.' :: cs => byClass (String.ofList cs)
  | cs => byTag (String.ofList cs)

/-- Whether two names differ at most in the case of ASCII letters. -/
def sameLetters (a b : String) : Bool :=
  a.toList.map Char.toLower == b.toList.map Char.toLower

/-- Whether a node is one that a selector names. -/
def accepts : Selector → Content → Bool
  | byId id, .element _ attributes => attributes.find? "id" == some id
  | byClass name, .element _ attributes =>
    (attributes.find? "class").any fun v => (Text.words v.toList).contains name.toList
  | byTag tag, .element tag' _ => sameLetters tag' tag
  | _, _ => false

end Selector

namespace Surface

/-- The first node that passes a test, a node before its children, down to a depth. -/
def find (s : Surface) (test : Content → Bool) : Nat → NodeId → Option NodeId
  | 0, _ => none
  | depth + 1, id =>
    match s.node? id with
    | none => none
    | some n => if test n.content then some id else n.children.findSome? (s.find test depth)

/-- The first node in document order that a selector names. -/
def query (s : Surface) (selector : String) : Option NodeId :=
  s.find (Selector.read selector).accepts s.nodes.size root

end Surface

end LiveMarkup
