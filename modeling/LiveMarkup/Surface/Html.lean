import LiveMarkup.Markup.Forest
import LiveMarkup.Surface.Basic

/-!
# Markup of a surface

* `Surface.outerHtml`, `Surface.innerHtml`: the markup of a node, with or without its own tags.
* `Surface.html`: the markup of the document.
-/

namespace LiveMarkup.Surface

open Markup

/-- An attribute in an opening tag. -/
def attributeHtml (e : String × String) : List Char :=
  ' ' :: e.1.toList ++ ['=', '\x22'] ++ Entity.escape .quoted e.2.toList ++ ['\x22']

def openingHtml (tag : String) (attributes : Attributes) : List Char :=
  '<' :: tag.toList ++ attributes.entries.flatMap attributeHtml ++ ['>']

def closingHtml (tag : String) : List Char := '<' :: '/' :: tag.toList ++ ['>']

/-- The markup of a node down to a depth. An element that never has children and has none is
written without a closing tag. -/
def writeHtml (s : Surface) : Nat → NodeId → List Char
  | 0, _ => []
  | depth + 1, id =>
    match s.node? id with
    | none => []
    | some n =>
      let inner := n.children.flatMap (s.writeHtml depth)
      match n.content with
      | .document => inner
      | .element tag attributes =>
        if n.children.isEmpty && isVoid tag then openingHtml tag attributes
        else openingHtml tag attributes ++ inner ++ closingHtml tag
      | .text content => Entity.escape .content content.toList
      | .comment content => ['<', '!', '-', '-'] ++ content.toList ++ ['-', '-', '>']

/-- The markup of a node; no path from a node down visits more nodes than there are. -/
def outerHtml (s : Surface) (id : NodeId) : String := String.ofList (s.writeHtml s.nodes.size id)

def innerHtml (s : Surface) (id : NodeId) : String :=
  String.ofList ((s.children id).flatMap (s.writeHtml s.nodes.size))

/-- The markup of the document. -/
def html (s : Surface) : String := s.innerHtml root

end LiveMarkup.Surface
