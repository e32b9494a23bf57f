import LiveMarkup.Surface.Basic

/-!
# Patching

A surface that shows one tree is brought to show another by comparing the two position by position.
Nodes of one kind and tag are reused; where kind or tag differ the subtree is built anew; what is
new at the end of a list of children is appended, and what is left over there is removed.

* `Patch.create`: a tree built on a surface.
* `Patch.update`: a tree patched over an old one.
* `Patch.mount`: a tree put in the place of a surface node.
* `Patch.run`: the work of one render, from either start.
-/

namespace LiveMarkup

/-- What a surface showed before a patch: a node that nothing was rendered over yet, or the tree of
the last render with its handles. -/
inductive Shown where
  | node (id : NodeId)
  | tree (tree : Tree)

/-- The work done by a patch. -/
structure PatchReport where
  /-- Surface nodes built. -/
  created : Nat
  /-- Pairs of nodes compared at one position. -/
  patched : Nat
  /-- Nodes added at the end of a list of children. -/
  appended : Nat
  /-- Nodes removed at the end of a list of children. -/
  removed : Nat
  /-- Subtrees built anew because kind or tag changed. -/
  replaced : Nat
  /-- Texts written because they changed. -/
  textWrites : Nat
  deriving DecidableEq, Repr

def PatchReport.none : PatchReport := ⟨0, 0, 0, 0, 0, 0⟩

/-- Why a patch stops. -/
inductive PatchError where
  /-- The node to replace has no parent. -/
  | detached (id : NodeId)
  /-- The old tree has a node without a handle. -/
  | missingHandle
  deriving DecidableEq, Repr

def PatchError.message : PatchError → String
  | detached id => s!"node {id.display} is not attached to a parent"
  | missingHandle => "previous tree has a node without a surface handle"

/-- A surface under work, and the work done so far. -/
structure Patch where
  surface : Surface
  report : PatchReport

/-- Where a patch got to: the surface and the report, the new tree with the handles recorded so far,
and the error that stopped it, if one did. -/
structure Patched (α : Type) where
  patch : Patch
  tree : α
  error : Option PatchError

namespace Patch

def start (s : Surface) : Patch := ⟨s, .none⟩

def count (p : Patch) (change : PatchReport → PatchReport) : Patch :=
  { p with report := change p.report }

def onSurface (p : Patch) (change : Surface → Surface) : Patch :=
  { p with surface := change p.surface }

/-! ## Building -/

mutual

/-- Builds a tree: the node, its attributes, then its children, each appended when complete. -/
def create (p : Patch) : Tree → NodeId × Tree × Patch
  | .text content _ =>
    let (id, s) := p.surface.createText content
    (id, .text content (some id), ⟨s, { p.report with created := p.report.created + 1 }⟩)
  | .element tag attributes children _ =>
    let (id, s) := p.surface.createElement tag
    let s := attributes.entries.foldl (fun s e => s.setAttribute id e.1 e.2) s
    let (children, p) :=
      createChildren ⟨s, { p.report with created := p.report.created + 1 }⟩ id children
    (id, .element tag attributes children (some id), p)

def createChildren (p : Patch) (parent : NodeId) : List Tree → List Tree × Patch
  | [] => ([], p)
  | t :: ts =>
    let (id, t, p) := p.create t
    let (ts, p) := createChildren (p.onSurface fun s => s.appendChild parent id) parent ts
    (t :: ts, p)

end

/-- Builds a tree in the place of a node, which is removed. -/
def rebuild (p : Patch) (parent id : NodeId) (reference : Option NodeId) (new : Tree) :
    Tree × Patch :=
  let (fresh, new, p) := p.create new
  (new, p.onSurface fun s => (s.insertBefore parent fresh reference).removeChild parent id)

/-- First paint: builds a tree and puts it where a node is, which is removed. -/
def mount (p : Patch) (target : NodeId) (new : Tree) : Patched Tree :=
  match p.surface.parent? target with
  | none => ⟨p, new, some (.detached target)⟩
  | some parent =>
    let (new, p) := p.rebuild parent target (p.surface.nextSibling? target) new
    ⟨p, new, none⟩

/-! ## Updating -/

/-- Builds a tree in the place of a node of another kind or tag. -/
def replace (p : Patch) (id : NodeId) (new : Tree) : Patched Tree :=
  match p.surface.parent? id with
  | none => ⟨p, new, some (.detached id)⟩
  | some parent =>
    let (new, p) := p.rebuild parent id (some id) new
    ⟨p.count fun r => { r with replaced := r.replaced + 1 }, new, none⟩

/-- Builds trees at the end of a list of children. -/
def appendNew (p : Patch) (parent : NodeId) : List Tree → List Tree × Patch
  | [] => ([], p)
  | t :: ts =>
    let (id, t, p) := p.create t
    let p := (p.onSurface fun s => s.appendChild parent id).count
      fun r => { r with appended := r.appended + 1 }
    let (ts, p) := appendNew p parent ts
    (t :: ts, p)

/-- Removes old trees at the end of a list of children. -/
def removeOld (p : Patch) (parent : NodeId) : List Tree → Patch × Option PatchError
  | [] => (p, none)
  | old :: rest =>
    match old.handle with
    | none => (p, some .missingHandle)
    | some id =>
      removeOld ((p.onSurface fun s => s.removeChild parent id).count
        fun r => { r with removed := r.removed + 1 }) parent rest

mutual

/-- Patches a tree over an old one at the same position. -/
def update (p : Patch) (old : Tree) : Tree → Patched Tree
  | new =>
    match old.handle with
    | none => ⟨p, new, some .missingHandle⟩
    | some id =>
      let p := p.count fun r => { r with patched := r.patched + 1 }
      match old, new with
      | .text before _, .text content _ =>
        if before = content then ⟨p, .text content (some id), none⟩
        else
          ⟨(p.onSurface fun s => s.setText id content).count
            fun r => { r with textWrites := r.textWrites + 1 }, .text content (some id), none⟩
      | .element oldTag _ olds _, .element tag attributes news handle =>
        if oldTag = tag then
          let result := updateChildren p id olds news
          ⟨result.patch, .element tag attributes result.tree (some id), result.error⟩
        else p.replace id (.element tag attributes news handle)
      | _, new => p.replace id new

/-- Patches a list of children over the old one. -/
def updateChildren (p : Patch) (parent : NodeId) (olds : List Tree) :
    List Tree → Patched (List Tree)
  | [] =>
    let (p, error) := p.removeOld parent olds
    ⟨p, [], error⟩
  | new :: news =>
    match olds with
    | [] =>
      let (news, p) := p.appendNew parent (new :: news)
      ⟨p, news, none⟩
    | old :: olds =>
      let first := update p old new
      match first.error with
      | some error => ⟨first.patch, first.tree :: news, some error⟩
      | none =>
        let rest := updateChildren first.patch parent olds news
        ⟨rest.patch, first.tree :: rest.tree, rest.error⟩

end

/-- Brings a surface from what it showed to a new tree. -/
def run (p : Patch) (shown : Shown) (new : Tree) : Patched Tree :=
  match shown with
  | .node target => p.mount target new
  | .tree old => p.update old new

end Patch

end LiveMarkup
