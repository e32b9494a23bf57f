import LiveMarkup.Markup.Forest
import LiveMarkup.Surface.Basic

/-!
# Source on a surface

* `Surface.load`: a source node laid out under a parent, without a record.
* `Surface.ofMarkup`: the surface of a markup text.
* `Surface.source?`: a node read back as source.
* `Surface.text?`: the text of a node.
-/

namespace LiveMarkup.Surface

/-- The content of a source node; the last value of a repeated attribute counts. -/
def contentOf : Source → Content
  | .element name attributes _ => .element name (Table.ofList attributes)
  | .text content => .text content
  | .comment content => .comment content

mutual

/-- Lays a source node out as the last child of a parent. -/
def load (s : Surface) (parent : NodeId) (source : Source) : NodeId × Surface :=
  let (id, s) := s.alloc (contentOf source)
  let s := s.attach parent id none
  match source with
  | .element _ _ children => (id, s.loadAll id children)
  | _ => (id, s)

/-- Lays source nodes out as the last children of a parent. -/
def loadAll (s : Surface) (parent : NodeId) : List Source → Surface
  | [] => s
  | source :: rest => (s.load parent source).2.loadAll parent rest

end

/-- The surface of a markup text. -/
def ofMarkup (markup : String) : Except MarkupError Surface :=
  (Source.parse markup).map fun forest => empty.loadAll root forest

/-- A node read back as source, down to a depth; the document is not a source node. -/
def readSource (s : Surface) : Nat → NodeId → Option Source
  | 0, _ => none
  | depth + 1, id =>
    match s.node? id with
    | none => none
    | some n =>
      match n.content with
      | .document => none
      | .element tag attributes =>
        some (.element tag attributes.entries (n.children.filterMap (s.readSource depth)))
      | .text content => some (.text content)
      | .comment content => some (.comment content)

def source? (s : Surface) (id : NodeId) : Option Source := s.readSource s.nodes.size id

/-- The text of a node down to a depth: its own, or that of all nodes below it, comments aside. -/
def readText (s : Surface) : Nat → NodeId → Option String
  | 0, _ => none
  | depth + 1, id =>
    match s.node? id with
    | none => none
    | some n =>
      match n.content with
      | .text content => some content
      | .comment _ => none
      | _ => some (String.join (n.children.filterMap (s.readText depth)))

def text? (s : Surface) (id : NodeId) : Option String := s.readText s.nodes.size id

end LiveMarkup.Surface
