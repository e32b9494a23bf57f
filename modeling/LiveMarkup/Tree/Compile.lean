import LiveMarkup.Markup.Source
import LiveMarkup.Tree.Basic

/-!
# From source to template

A template is a tree whose texts still hold their placeholders. Elements keep their name and their
attributes, of which the last value of a name counts, at its first position; comments are left out.

* `Source.compile`: the template of a source node.
-/

namespace LiveMarkup

/-- Why a source node is no template. -/
inductive CompileError where
  /-- The node itself is of a kind that is left out. -/
  | unsupportedRoot (kind : Source.Kind)
  deriving DecidableEq, Repr

def Source.Kind.name : Source.Kind → String
  | element => "Element"
  | text => "Text"
  | comment => "Comment"

def CompileError.message : CompileError → String
  | unsupportedRoot kind =>
    s!"template root must be an element or text node, found {kind.name}"

namespace Source

mutual

/-- The template of a node, unless it is left out. -/
def template? : Source → Option Tree
  | element name attributes children =>
    some (.element name (Table.ofList attributes) (templates children) none)
  | text content => some (.text content none)
  | comment _ => none

/-- The templates of a list of nodes. -/
def templates : List Source → List Tree
  | [] => []
  | s :: rest =>
    match s.template? with
    | some t => t :: templates rest
    | none => templates rest

end

/-- The template of a source node. -/
def compile (s : Source) : Except CompileError Tree :=
  match s.template? with
  | some t => .ok t
  | none => .error (.unsupportedRoot s.kind)

theorem templates_eq_filterMap (ss : List Source) : templates ss = ss.filterMap template? := by
  induction ss with
  | nil => rfl
  | cons s ss ih => cases h : s.template? <;> simp [templates, h, ih]

end Source

end LiveMarkup
