import LiveMarkup.Tree.Basic

/-!
# Surfaces

A surface is an arena of nodes with the document at number zero. Nodes are never freed; one that is
not linked to the document is merely detached. Every change made through the surface's own
operations is recorded in a log.

* `Surface.node?`, `Surface.children`, `Surface.parent?`: what can be read.
* `Surface.attach`, `Surface.detach`: links between nodes.
* `Surface.createElement`, …, `Surface.setText`: the recorded changes.
-/

namespace LiveMarkup

/-- What a node of a surface is. -/
inductive Content where
  | document
  | element (tag : String) (attributes : Attributes)
  | text (content : String)
  | comment (content : String)
  deriving DecidableEq

/-- A node of a surface with its links. -/
structure SurfaceNode where
  content : Content
  parent : Option NodeId
  children : List NodeId
  deriving DecidableEq

namespace Surface

/-- A recorded change. -/
inductive Op where
  | createElement (id : NodeId) (tag : String)
  | createText (id : NodeId) (text : String)
  | setAttribute (id : NodeId) (name value : String)
  | append (parent child : NodeId)
  | insertBefore (parent node : NodeId) (reference : Option NodeId)
  | remove (parent child : NodeId)
  | setText (id : NodeId) (text : String)
  deriving DecidableEq, Repr

end Surface

/-- An arena of nodes, and the record of the changes made to it. -/
structure Surface where
  nodes : Array SurfaceNode
  log : Array Surface.Op

namespace Surface

/-- The document. -/
def root : NodeId := ⟨0⟩

/-- A surface with an empty document. -/
def empty : Surface := ⟨#[⟨.document, none, []⟩], #[]⟩

instance : Inhabited Surface := ⟨empty⟩

/-! ## Reading -/

def node? (s : Surface) (id : NodeId) : Option SurfaceNode := s.nodes[id.index]?

def content? (s : Surface) (id : NodeId) : Option Content := (s.node? id).map (·.content)

def parent? (s : Surface) (id : NodeId) : Option NodeId := (s.node? id).bind (·.parent)

def children (s : Surface) (id : NodeId) : List NodeId :=
  match s.node? id with
  | some n => n.children
  | none => []

/-- The number of nodes ever made, linked or not. -/
def allocated (s : Surface) : Nat := s.nodes.size

def tag? (s : Surface) (id : NodeId) : Option String :=
  match s.content? id with
  | some (.element tag _) => some tag
  | _ => none

def attribute? (s : Surface) (id : NodeId) (name : String) : Option String :=
  match s.content? id with
  | some (.element _ attributes) => attributes.find? name
  | _ => none

/-- What follows the first occurrence of a node in a list. -/
def after (id : NodeId) : List NodeId → Option NodeId
  | [] => none
  | c :: cs => if c = id then cs.head? else after id cs

/-- The next node under the same parent. -/
def nextSibling? (s : Surface) (id : NodeId) : Option NodeId :=
  (s.parent? id).bind fun p => after id (s.children p)

/-- Whether the document is found within so many steps up from a node. -/
def climbs (s : Surface) : Nat → NodeId → Bool
  | 0, id => id == root
  | steps + 1, id =>
    id == root || match s.parent? id with
      | some p => s.climbs steps p
      | none => false

/-- Whether a node is linked to the document. -/
def isAttached (s : Surface) (id : NodeId) : Bool := s.climbs s.nodes.size id

/-! ## Links -/

def modify (s : Surface) (id : NodeId) (change : SurfaceNode → SurfaceNode) : Surface :=
  { s with nodes := s.nodes.modify id.index change }

/-- A new node without links. -/
def alloc (s : Surface) (content : Content) : NodeId × Surface :=
  (⟨s.nodes.size⟩, { s with nodes := s.nodes.push ⟨content, none, []⟩ })

/-- The surface with a node taken from its parent. -/
def detach (s : Surface) (id : NodeId) : Surface :=
  match s.parent? id with
  | none => s
  | some p =>
    (s.modify p fun n => { n with children := n.children.filter (· ≠ id) }).modify id
      fun n => { n with parent := none }

/-- A list of children with a node before the reference, or at the end if the reference is not
there. -/
def placeBefore (reference id : NodeId) : List NodeId → List NodeId
  | [] => [id]
  | c :: cs => if c = reference then id :: c :: cs else c :: placeBefore reference id cs

/-- A list of children with a node added. -/
def place (reference : Option NodeId) (id : NodeId) (children : List NodeId) : List NodeId :=
  match reference with
  | some r => placeBefore r id children
  | none => children ++ [id]

/-- The surface with a node moved under a parent. Nothing happens if one of them does not exist or
both are the same. -/
def attach (s : Surface) (parent id : NodeId) (reference : Option NodeId) : Surface :=
  if (s.node? parent).isNone || (s.node? id).isNone || parent == id then s
  else
    let adopted := (s.detach id).modify parent fun n =>
      { n with children := place reference id n.children }
    adopted.modify id fun n => { n with parent := some parent }

/-! ## Recorded changes -/

def record (s : Surface) (op : Op) : Surface := { s with log := s.log.push op }

def createElement (s : Surface) (tag : String) : NodeId × Surface :=
  let (id, s) := s.alloc (.element tag Table.empty)
  (id, s.record (.createElement id tag))

def createText (s : Surface) (text : String) : NodeId × Surface :=
  let (id, s) := s.alloc (.text text)
  (id, s.record (.createText id text))

/-- Writes an attribute; on anything but an element nothing happens. -/
def setAttribute (s : Surface) (id : NodeId) (name value : String) : Surface :=
  match s.content? id with
  | some (.element tag attributes) =>
    (s.modify id fun n => { n with content := .element tag (attributes.insert name value) }).record
      (.setAttribute id name value)
  | _ => s

/-- Moves a node to the end of a parent. The request is recorded also where it has no effect. -/
def appendChild (s : Surface) (parent child : NodeId) : Surface :=
  (s.attach parent child none).record (.append parent child)

/-- Moves a node before another child of a parent, or to its end. The request is recorded also where
it has no effect. -/
def insertBefore (s : Surface) (parent id : NodeId) (reference : Option NodeId) : Surface :=
  (s.attach parent id reference).record (.insertBefore parent id reference)

/-- Takes a node from its parent; if it is not a child of that parent nothing happens. -/
def removeChild (s : Surface) (parent child : NodeId) : Surface :=
  if s.parent? child = some parent then (s.detach child).record (.remove parent child) else s

/-- Writes the text of a text node, or replaces all children of an element by one text, by none if
it is empty. On any other node nothing happens. -/
def setText (s : Surface) (id : NodeId) (text : String) : Surface :=
  match s.content? id with
  | some (.text _) =>
    (s.modify id fun n => { n with content := .text text }).record (.setText id text)
  | some (.element ..) =>
    let s := (s.children id).foldl detach s
    let s :=
      if text.isEmpty then s
      else
        let (t, s) := s.alloc (.text text)
        s.attach id t none
    s.record (.setText id text)
  | _ => s

end Surface

end LiveMarkup
