import LiveMarkup.Workbench.Values

/-!
# Named surfaces and trees

* Operations on named surfaces, and what can be told of their nodes.
* Operations on named trees, and their building and patching on a surface.
-/

namespace LiveMarkup.Workbench.Desk

def surfaceAt (name : String) : Desk SurfaceId := named name (·.surfaces.find? name)

def treeAt (name : String) : Desk Tree := named name (·.trees.find? name)

/-- The surface that goes by a name. -/
def surface (name : String) : Desk Surface := do
  let id ← surfaceAt name
  return (← Live.host).surface id

def setSurface (name : String) (s : Surface) : Desk Unit := do
  let id ← surfaceAt name
  Live.tell fun b => b.setSurface id s

def setTree (name : String) (t : Tree) : Desk Unit :=
  alterRegisters fun r => { r with trees := r.trees.insert name t }

/-! ## Surfaces -/

/-- A new surface, empty or of a markup text; its root. -/
def makeSurface (name : String) (markup : Option String) :
    Desk (Except MarkupError NodeId) := do
  let made := match markup with
    | some text => Surface.ofMarkup text
    | none => .ok .empty
  match made with
  | .error e => return .error e
  | .ok s =>
    let id : SurfaceId := ⟨(← Live.host).surfaces.size⟩
    Live.tell fun b => { b with surfaces := b.surfaces.push s }
    alterRegisters fun r => { r with surfaces := r.surfaces.insert name id }
    return .ok Surface.root

/-- Changes a named surface. -/
def onSurface (name : String) (change : Surface → Surface) : Desk Unit := do
  setSurface name (change (← surface name))

/-- Changes a named surface in a way that gives a node. -/
def nodeOn (name : String) (change : Surface → NodeId × Surface) : Desk NodeId := do
  let (id, s) := change (← surface name)
  setSurface name s
  return id

/-- What can be told of a node of a surface. -/
structure NodeInfo where
  content : Option Content
  tag : Option String
  attr : Option String
  parent : Option NodeId
  next : Option NodeId
  children : List NodeId
  text : Option String
  attached : Bool
  inner : String
  outer : String
  source : Option Source
  allocated : Nat

def nodeInfo (name : String) (id : NodeId) (key : String) : Desk NodeInfo := do
  let s ← surface name
  return {
    content := s.content? id
    tag := s.tag? id
    attr := s.attribute? id key
    parent := s.parent? id
    next := s.nextSibling? id
    children := s.children id
    text := s.text? id
    attached := s.isAttached id
    inner := s.innerHtml id
    outer := s.outerHtml id
    source := s.source? id
    allocated := s.allocated }

/-- The named surfaces with their markup and the changes recorded since the last time. -/
def surfaceStates : Desk (List (String × String × List Surface.Op)) := do
  let b ← Live.host
  let entries := b.extra.surfaces.entries.mergeSort fun x y => !decide (y.1 < x.1)
  Live.tell fun b => { b with surfaces := b.surfaces.map fun s => { s with log := #[] } }
  return entries.map fun e => (e.1, (b.surface e.2).html, (b.surface e.2).log.toList)

/-! ## Trees -/

def detachTree (tree name : String) : Desk Tree := do
  let t := (← treeAt tree).detached
  setTree name t
  return t

def sameTrees (a b : String) : Desk Bool := do return (← treeAt a).same (← treeAt b)

def setHandle (tree : String) (id : NodeId) : Desk Unit := do
  setTree tree ((← treeAt tree).withHandle id)

/-- Builds a tree on a surface; its node, the work done, and the tree with its handles. -/
def createTree (surfaceName tree : String) : Desk (NodeId × PatchReport × Tree) := do
  let (id, t, p) := (Patch.start (← surface surfaceName)).create (← treeAt tree)
  setSurface surfaceName p.surface
  setTree tree t
  return (id, p.report, t)

/-- Where a patch of a named tree got to. -/
structure PatchOutcome where
  report : PatchReport
  tree : Tree
  error : Option PatchError

/-- Keeps where a patch got to. -/
def keepPatched (surfaceName tree : String) (result : Patched Tree) : Desk PatchOutcome := do
  setSurface surfaceName result.patch.surface
  setTree tree result.tree
  return ⟨result.patch.report, result.tree, result.error⟩

/-- What a patch starts from: a node or a named tree. -/
inductive Previous where
  | node (id : NodeId)
  | tree (name : String)

def patch (surfaceName : String) (previous : Previous) (next : String) : Desk PatchOutcome := do
  let shown ← match previous with
    | .node id => pure (Shown.node id)
    | .tree name => do pure (Shown.tree (← treeAt name))
  keepPatched surfaceName next ((Patch.start (← surface surfaceName)).run shown (← treeAt next))

/-- Patches the children of a named tree over those of another, under a node. -/
def patchChildren (surfaceName : String) (target : NodeId) (previous next : String) :
    Desk PatchOutcome := do
  let old ← treeAt previous
  let new ← treeAt next
  let result :=
    (Patch.start (← surface surfaceName)).updateChildren target old.children new.children
  keepPatched surfaceName next ⟨result.patch, new.withChildren result.tree, result.error⟩

end LiveMarkup.Workbench.Desk
