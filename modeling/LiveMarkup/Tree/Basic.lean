import LiveMarkup.Table

/-!
# Trees

A tree is what a surface is to show: elements with their attributes, and texts. Each node may
remember the surface node that shows it, its handle.

* `Tree.detached`: a tree without its handles.
* `Tree.count`: the number of its nodes.
* `Tree.same`: equality of trees, in which handles and the order of attributes play no part.
-/

namespace LiveMarkup

/-- The number of a node on a surface. -/
structure NodeId where
  index : Nat
  deriving DecidableEq, Repr

/-- The number of a node in a message. -/
def NodeId.display (n : NodeId) : String := s!"#{n.index}"

/-- The attributes of an element: values under distinct names, in the order of first writing. -/
abbrev Attributes := Table String

/-- Whether two lists of attributes hold the same values under the same names, in any order. -/
def Attributes.same (a b : Attributes) : Bool :=
  a.size == b.size && a.entries.all fun e => b.find? e.1 == some e.2

/-- Elements and texts, with the surface nodes that show them. -/
inductive Tree where
  | element (tag : String) (attributes : Attributes) (children : List Tree) (handle : Option NodeId)
  | text (content : String) (handle : Option NodeId)

namespace Tree

def tag? : Tree → Option String
  | element tag .. => some tag
  | text .. => none

def text? : Tree → Option String
  | element .. => none
  | text content _ => some content

def isText : Tree → Bool
  | element .. => false
  | text .. => true

def attributes? : Tree → Option Attributes
  | element _ attributes .. => some attributes
  | text .. => none

def children : Tree → List Tree
  | element _ _ children _ => children
  | text .. => []

def handle : Tree → Option NodeId
  | element _ _ _ handle => handle
  | text _ handle => handle

/-- The tree with a handle at its root. -/
def withHandle (id : NodeId) : Tree → Tree
  | element tag attributes children _ => element tag attributes children (some id)
  | text content _ => text content (some id)

/-- The tree with other children; a text has none. -/
def withChildren (children : List Tree) : Tree → Tree
  | element tag attributes _ handle => element tag attributes children handle
  | text content handle => text content handle

mutual

/-- The tree without its handles. -/
def detached : Tree → Tree
  | element tag attributes children _ => element tag attributes (detachedList children) none
  | text content _ => text content none

def detachedList : List Tree → List Tree
  | [] => []
  | t :: ts => t.detached :: detachedList ts

end

mutual

/-- The number of nodes of a tree. -/
def count : Tree → Nat
  | element _ _ children _ => 1 + countList children
  | text .. => 1

def countList : List Tree → Nat
  | [] => 0
  | t :: ts => t.count + countList ts

end

mutual

/-- Equality of trees, handles and order of attributes aside. -/
def same : Tree → Tree → Bool
  | element tag attributes children _, element tag' attributes' children' _ =>
    tag == tag' && attributes.same attributes' && sameList children children'
  | text content _, text content' _ => content == content'
  | _, _ => false

def sameList : List Tree → List Tree → Bool
  | [], [] => true
  | t :: ts, t' :: ts' => t.same t' && sameList ts ts'
  | _, _ => false

end

theorem detachedList_eq_map (ts : List Tree) : detachedList ts = ts.map detached := by
  induction ts with
  | nil => rfl
  | cons t ts ih => simp [detachedList, ih]

theorem countList_append (ts us : List Tree) :
    countList (ts ++ us) = countList ts + countList us := by
  induction ts with
  | nil => simp [countList]
  | cons t ts ih => simp [countList, ih, Nat.add_assoc]

end Tree

end LiveMarkup
