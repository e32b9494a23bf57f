import LiveMarkup.Proofs.Surface.Links

/-!
# What a surface shows

A surface node shows a tree if it is of the kind of the tree's root, with the same tag or text, if it
is the handle of that root, and if its children show the children of the tree, one by one.

* `Tree.handles`: the handles of a tree, in document order.
* `Surface.Shows`: a node shows a tree; which attributes a node may carry is left to a parameter.
* `Surface.Faithful`: a tree is shown by pairwise different nodes, whatever their attributes.
* **`Shows.transport`**: a change elsewhere on the surface leaves what a node shows as it was.
-/

namespace LiveMarkup

namespace Tree

mutual

/-- The handles of a tree, in document order. -/
def handles : Tree → List NodeId
  | element _ _ children handle => handle.toList ++ handlesList children
  | text _ handle => handle.toList

def handlesList : List Tree → List NodeId
  | [] => []
  | t :: ts => t.handles ++ handlesList ts

end

mutual

/-- The nodes of a tree with all that is below them, in document order. -/
def subtrees : Tree → List Tree
  | element tag attributes children handle =>
    element tag attributes children handle :: subtreesList children
  | text content handle => [text content handle]

def subtreesList : List Tree → List Tree
  | [] => []
  | t :: ts => t.subtrees ++ subtreesList ts

end

end Tree

/-- The attributes of an element. -/
def Content.attributes? : Content → Option Attributes
  | .element _ attributes => some attributes
  | _ => none

namespace Surface

variable {s s' : Surface} {fits fits' : NodeId → Attributes → Attributes → Prop}

mutual

/-- A node shows a tree. The parameter relates the attributes of a surface node to those of the tree
node that it is the handle of. -/
inductive Shows (s : Surface) (fits : NodeId → Attributes → Attributes → Prop) :
    NodeId → Tree → Prop where
  | text (id : NodeId) (content : String) (data : s.content? id = some (.text content))
      (leaf : s.children id = []) : Shows s fits id (.text content (some id))
  | element (id : NodeId) (tag : String) (carried attributes : Attributes) (children : List Tree)
      (data : s.content? id = some (.element tag carried)) (fit : fits id carried attributes)
      (below : ShowsAll s fits (s.children id) children) :
      Shows s fits id (.element tag attributes children (some id))

inductive ShowsAll (s : Surface) (fits : NodeId → Attributes → Attributes → Prop) :
    List NodeId → List Tree → Prop where
  | nil : ShowsAll s fits [] []
  | cons (id : NodeId) (ids : List NodeId) (t : Tree) (ts : List Tree) (head : Shows s fits id t)
      (tail : ShowsAll s fits ids ts) : ShowsAll s fits (id :: ids) (t :: ts)

end

/-- The nodes carry exactly the attributes of the tree. -/
def exact (_ : NodeId) (carried attributes : Attributes) : Prop := carried = attributes

/-- The nodes may carry any attributes. -/
def anyAttributes (_ : NodeId) (_ _ : Attributes) : Prop := True

/-- A tree is shown, every node of it by a surface node of its own. -/
def Faithful (s : Surface) (t : Tree) : Prop :=
  (∃ id, s.Shows anyAttributes id t) ∧ t.handles.Nodup

theorem Shows.handle_eq {id : NodeId} {t : Tree} (h : s.Shows fits id t) : t.handle = some id := by
  cases h <;> rfl

theorem Shows.mem_handles {id : NodeId} {t : Tree} (h : s.Shows fits id t) : id ∈ t.handles := by
  cases h <;> simp [Tree.handles]

theorem ShowsAll.map_handle {ids : List NodeId} {ts : List Tree} (h : s.ShowsAll fits ids ts) :
    ts.map Tree.handle = ids.map some := by
  cases h with
  | nil => rfl
  | cons id ids t ts head tail => rw [List.map_cons, List.map_cons, head.handle_eq, tail.map_handle]

theorem ShowsAll.subset_handles {ids : List NodeId} {ts : List Tree} (h : s.ShowsAll fits ids ts) :
    ∀ x ∈ ids, x ∈ Tree.handlesList ts := by
  intro x hx
  cases h with
  | nil => simp at hx
  | cons id ids t ts head tail =>
    rcases List.mem_cons.1 hx with rfl | hx
    · exact List.mem_append_left _ head.mem_handles
    · exact List.mem_append_right _ (tail.subset_handles x hx)

mutual

theorem Shows.allocated {id : NodeId} {t : Tree} (h : s.Shows fits id t) : ∀ x ∈ t.handles, x.index < s.allocated := by
  cases h with
  | text id content data leaf =>
    simpa [Tree.handles] using lt_of_content? data
  | element id tag carried attributes children data fit below =>
    simpa [Tree.handles] using ⟨lt_of_content? data, below.allocated⟩

theorem ShowsAll.allocated {ids : List NodeId} {ts : List Tree} (h : s.ShowsAll fits ids ts) :
    ∀ x ∈ Tree.handlesList ts, x.index < s.allocated := by
  cases h with
  | nil => simp [Tree.handlesList]
  | cons id ids t ts head tail =>
    intro x hx
    rcases List.mem_append.1 hx with hx | hx
    · exact head.allocated x hx
    · exact tail.allocated x hx

end

mutual

/-- A node still shows its tree where the nodes of the tree have kept content and children, and fits
whatever attributes are asked for if they are right for the ones it carries. -/
theorem Shows.transport {id : NodeId} {t : Tree} (h : s.Shows fits id t)
    (content : ∀ x ∈ t.handles, s'.content? x = s.content? x)
    (children : ∀ x ∈ t.handles, s'.children x = s.children x)
    (fit : ∀ x ∈ t.handles, ∀ a b, fits x a b → fits' x a b) : s'.Shows fits' id t := by
  cases h with
  | text id text data leaf =>
    simp only [Tree.handles, Option.toList_some, List.mem_singleton, forall_eq]
      at content children
    exact .text id text (content.trans data) (children.trans leaf)
  | element id tag carried attributes ts data fits below =>
    have hid : id ∈ (Tree.element tag attributes ts (some id)).handles := by simp [Tree.handles]
    have hts : ∀ x ∈ Tree.handlesList ts, x ∈ (Tree.element tag attributes ts (some id)).handles :=
      fun x hx => List.mem_append_right _ hx
    refine .element id tag carried attributes ts ((content id hid).trans data)
      (fit id hid _ _ fits) ?_
    rw [children id hid]
    exact below.transport (fun x hx => content x (hts x hx)) (fun x hx => children x (hts x hx))
      fun x hx => fit x (hts x hx)

theorem ShowsAll.transport {ids : List NodeId} {ts : List Tree} (h : s.ShowsAll fits ids ts)
    (content : ∀ x ∈ Tree.handlesList ts, s'.content? x = s.content? x)
    (children : ∀ x ∈ Tree.handlesList ts, s'.children x = s.children x)
    (fit : ∀ x ∈ Tree.handlesList ts, ∀ a b, fits x a b → fits' x a b) :
    s'.ShowsAll fits' ids ts := by
  cases h with
  | nil => exact .nil
  | cons id ids t ts head tail =>
    have ht : ∀ x ∈ t.handles, x ∈ Tree.handlesList (t :: ts) :=
      fun x hx => List.mem_append_left _ hx
    have hts : ∀ x ∈ Tree.handlesList ts, x ∈ Tree.handlesList (t :: ts) :=
      fun x hx => List.mem_append_right _ hx
    exact .cons id ids t ts
      (head.transport (fun x hx => content x (ht x hx)) (fun x hx => children x (ht x hx))
        fun x hx => fit x (ht x hx))
      (tail.transport (fun x hx => content x (hts x hx)) (fun x hx => children x (hts x hx))
        fun x hx => fit x (hts x hx))

end

/-- A node shows its tree also under a weaker demand on attributes. -/
theorem Shows.mono {id : NodeId} {t : Tree} (h : s.Shows fits id t)
    (fit : ∀ x ∈ t.handles, ∀ a b, fits x a b → fits' x a b) : s.Shows fits' id t :=
  h.transport (fun _ _ => rfl) (fun _ _ => rfl) fit

theorem ShowsAll.mono {ids : List NodeId} {ts : List Tree} (h : s.ShowsAll fits ids ts)
    (fit : ∀ x ∈ Tree.handlesList ts, ∀ a b, fits x a b → fits' x a b) :
    s.ShowsAll fits' ids ts :=
  h.transport (fun _ _ => rfl) (fun _ _ => rfl) fit

mutual

/-- The attributes of a node that shows an element fit those of the element. -/
theorem Shows.fit {id x : NodeId} {t : Tree} (h : s.Shows fits id t) {tag : String} {attributes : Attributes}
    {children : List Tree} (hu : .element tag attributes children (some x) ∈ t.subtrees) :
    ∃ carried, s.content? x = some (.element tag carried) ∧ fits x carried attributes := by
  cases h with
  | text id content data leaf => simp [Tree.subtrees] at hu
  | element id tag carried attributes ts data fits below =>
    rcases List.mem_cons.1 hu with hu | hu
    · cases hu; exact ⟨carried, data, fits⟩
    · exact below.fit hu

theorem ShowsAll.fit {x : NodeId} {ids : List NodeId} {ts : List Tree}
    (h : s.ShowsAll fits ids ts) {tag : String} {attributes : Attributes}
    {children : List Tree} (hu : .element tag attributes children (some x) ∈ Tree.subtreesList ts) :
    ∃ carried, s.content? x = some (.element tag carried) ∧ fits x carried attributes := by
  cases h with
  | nil => simp [Tree.subtreesList] at hu
  | cons id ids t ts head tail =>
    rcases List.mem_append.1 hu with hu | hu
    · exact head.fit hu
    · exact tail.fit hu

end

end Surface

end LiveMarkup
