import LiveMarkup.Text.Blank

/-!
# Source nodes

What a markup text holds: elements with their attributes as written, texts and comments.
-/

namespace LiveMarkup

/-- A node of a markup text. -/
inductive Source where
  | element (name : String) (attributes : List (String × String)) (children : List Source)
  | text (content : String)
  | comment (content : String)

namespace Source

/-- The three kinds of nodes. -/
inductive Kind where
  | element
  | text
  | comment
  deriving DecidableEq, Repr

def kind : Source → Kind
  | element .. => .element
  | text _ => .text
  | comment _ => .comment

def name? : Source → Option String
  | element name .. => some name
  | _ => none

def text? : Source → Option String
  | text content => some content
  | _ => none

def attributes : Source → List (String × String)
  | element _ attributes _ => attributes
  | _ => []

def children : Source → List Source
  | element _ _ children => children
  | _ => []

/-- Whether a node is a text of blanks only. -/
def isBlank : Source → Bool
  | text content => Text.allBlank content
  | _ => false

def isComment (s : Source) : Bool := s.kind == .comment

def isElement (s : Source) : Bool := s.kind == .element

end Source

end LiveMarkup
