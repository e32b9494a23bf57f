import LiveMarkup.Proofs.Patch.Update

/-!
# Patching equals rebuilding

Whatever a surface showed before, a patch succeeds and leaves the new tree in the same place. After
any number of patches the nodes have the tags, texts and structure that building the last tree would
have given them.

* `Surface.Alike`: two nodes have the same tags, texts and structure below them.
* `Shown.At`: what a surface shows is in place, a child of some node.
* `Patch.Brought`: what a patch must do.
* `Patch.runAll`: one patch after the other.
* **`Patch.brought_runAll`**: every patch does what it must, and a run of patches equals building.
-/

namespace LiveMarkup

/-- What a surface node is, its attributes aside. -/
def Content.bare : Content → Content
  | .element tag _ => .element tag Table.empty
  | k => k

namespace Surface

variable {s s' : Surface}

mutual

/-- Two nodes have the same tags, texts and structure. -/
inductive Alike (s s' : Surface) : NodeId → NodeId → Prop where
  | intro (x y : NodeId) (k k' : Content) (left : s.content? x = some k)
      (right : s'.content? y = some k') (bare : k.bare = k'.bare)
      (below : AlikeAll s s' (s.children x) (s'.children y)) : Alike s s' x y

inductive AlikeAll (s s' : Surface) : List NodeId → List NodeId → Prop where
  | nil : AlikeAll s s' [] []
  | cons (x y : NodeId) (xs ys : List NodeId) (head : Alike s s' x y)
      (tail : AlikeAll s s' xs ys) : AlikeAll s s' (x :: xs) (y :: ys)

end

mutual

/-- Nodes that show the same tree are alike. -/
theorem Shows.alike {fits fits' : NodeId → Attributes → Attributes → Prop} {x y : NodeId}
    {t t' : Tree} (h : s.Shows fits x t) (h' : s'.Shows fits' y t')
    (same : t.detached = t'.detached) : Alike s s' x y := by
  cases h with
  | text x content data leaf =>
    cases h' with
    | text y content' data' leaf' =>
      cases same
      exact .intro x y _ _ data data' rfl (by rw [leaf, leaf']; exact .nil)
    | element => cases same
  | element x tag carried attributes ts data fit below =>
    cases h' with
    | text => cases same
    | element y tag' carried' attributes' ts' data' fit' below' =>
      simp only [Tree.detached, Tree.element.injEq] at same
      obtain ⟨rfl, -, same, -⟩ := same
      exact .intro x y _ _ data data' rfl (below.alike below' same)

theorem ShowsAll.alike {fits fits' : NodeId → Attributes → Attributes → Prop}
    {xs ys : List NodeId} {ts ts' : List Tree} (h : s.ShowsAll fits xs ts)
    (h' : s'.ShowsAll fits' ys ts') (same : Tree.detachedList ts = Tree.detachedList ts') :
    AlikeAll s s' xs ys := by
  cases h with
  | nil =>
    cases h' with
    | nil => exact .nil
    | cons => cases same
  | cons x xs t ts head tail =>
    cases h' with
    | nil => cases same
    | cons y ys t' ts' head' tail' =>
      simp only [Tree.detachedList, List.cons.injEq] at same
      exact .cons x y xs ys (head.alike head' same.1) (tail.alike tail' same.2)

end

end Surface

open Surface

/-- What a surface shows is in place: a node with a parent, or a tree shown by distinct nodes, the
root of which has a parent. -/
inductive Shown.At (s : Surface) : Shown → NodeId → NodeId → Prop where
  | node (id parent : NodeId) (link : s.parent? id = some parent) : At s (.node id) id parent
  | tree (t : Tree) (id parent : NodeId) (handle : t.handle = some id) (faithful : s.Faithful t)
      (link : s.parent? id = some parent) : At s (.tree t) id parent

/-- The nodes that a patch may use again. -/
def Shown.handles : Shown → List NodeId
  | node _ => []
  | tree t => t.handles

namespace Patch

/-- A patch leaves a tree in the place of what was shown, and changes nothing else. -/
structure Brought (s : Surface) (shown : Shown) (id parent : NodeId) (new : Tree)
    (r : Patched Tree) : Prop where
  succeeds : r.error = none
  linked : r.patch.surface.Linked
  detached : r.tree.detached = new.detached
  /-- The new tree is shown, at the same position among the children of the same parent. -/
  place : ∃ id', Shown.At r.patch.surface (.tree r.tree) id' parent ∧
    ∃ pre post, s.children parent = pre ++ id :: post ∧
      r.patch.surface.children parent = pre ++ id' :: post
  outside : parent ∉ shown.handles
  /-- Nodes outside keep their content, and all but the parent keep their children. -/
  keeps : s.Keeps r.patch.surface shown.handles (parent :: shown.handles)
  /-- Nodes that were there keep their attributes, nodes that were made have those of the tree. -/
  attributes : ∀ tag attributes children x,
    .element tag attributes children (some x) ∈ r.tree.subtrees →
      r.patch.surface.attributes? x =
        if x.index < s.allocated then s.attributes? x else some attributes

/-- Patches one tree after the other; none is tried after a failure. -/
def runAll (s : Surface) (shown : Shown) : List Tree → Option (Surface × Shown)
  | [] => some (s, shown)
  | new :: news =>
    let r := (start s).run shown new
    match r.error with
    | none => runAll r.patch.surface (.tree r.tree) news
    | some _ => none

section

variable {s : Surface} {shown : Shown} {id parent : NodeId}

theorem Placed.brought {reused : List NodeId} {new : Tree} {id' : NodeId} {r : Patched Tree}
    (h : Placed s parent id reused new r.patch.surface id' r.tree) (hs : s.Linked)
    (link : s.parent? id = some parent) (hreused : reused = shown.handles)
    (houtside : parent ∉ reused) (hlt : ∀ x ∈ reused, x.index < s.allocated) (hnone : r.error = none) :
    Brought s shown id parent new r := by
  obtain ⟨pre, post, hsplit⟩ := List.append_of_mem (hs.mem_children_iff.2 link)
  have hplace := h.place pre post hsplit
  have hlink : r.patch.surface.parent? id' = some parent := by
    rw [← h.linked.mem_children_iff, hplace]
    simp
  refine ⟨hnone, h.linked, h.detached, ⟨id', .tree _ _ _ h.shows_but.handle_eq
    ⟨⟨id', h.shows_but.mono fun _ _ _ _ _ => trivial⟩, h.nodup⟩ hlink, pre, post, hsplit, hplace⟩,
    hreused ▸ houtside, hreused ▸ h.keeps, fun tag attributes children x hx => ?_⟩
  obtain ⟨carried, hdata, hfit⟩ := h.shows_but.fit hx
  split
  · next hold => exact h.attributes x hold
  · next hnew =>
    have : x ∉ reused := fun hm => hnew (hlt x hm)
    rw [attributes?, hdata, ← hfit this]
    rfl

/-- One patch, from either start. -/
theorem brought_run (linked : s.Linked) (h : shown.At s id parent) (new : Tree) :
    Brought s shown id parent new ((start s).run shown new) := by
  cases h with
  | node id parent link =>
    obtain ⟨hnone, id', hplaced⟩ := placed_mount (start s) id new linked link
    exact hplaced.brought linked link rfl List.not_mem_nil (fun x hx => absurd hx List.not_mem_nil)
      hnone
  | tree t id parent handle faithful link =>
    obtain ⟨⟨id', hshows⟩, hnodup⟩ := faithful
    obtain rfl : id' = id := Option.some.inj (hshows.handle_eq.symm.trans handle)
    have hchild := linked.mem_children_iff.2 link
    have houtside := hshows.parent_not_mem hnodup hchild
    obtain ⟨hnone, id'', hplaced⟩ :=
      placed_update (start s) t new linked hshows hnodup hchild houtside
    exact hplaced.brought linked link rfl houtside hshows.allocated hnone

/-- **Patching equals rebuilding.** Each patch succeeds and leaves its tree in place, and what a run
of patches leaves is like the last tree built afresh on any surface. -/
theorem brought_runAll (linked : s.Linked) (h : shown.At s id parent) :
    (∀ new, Brought s shown id parent new ((start s).run shown new)) ∧
      ∀ news last, ∃ s' t id', runAll s shown (news ++ [last]) = some (s', .tree t) ∧
        Shown.At s' (.tree t) id' parent ∧ t.detached = last.detached ∧
        ∀ p : Patch, p.surface.Linked →
          Alike s' (p.create last).2.2.surface id' (p.create last).1 := by
  refine ⟨brought_run linked h, fun news last => ?_⟩
  induction news generalizing s shown id with
  | nil =>
    obtain ⟨hnone, -, hdetached, ⟨id', hat, -⟩, -, -, -⟩ := brought_run linked h last
    refine ⟨_, _, id', ?_, hat, hdetached, fun p hp => ?_⟩
    · rw [List.nil_append, runAll]
      simp only [hnone, runAll]
    · have hbuilt := built_create p last hp
      cases hat with
      | tree _ _ _ handle faithful _ =>
      obtain ⟨⟨id'', hshows⟩, -⟩ := faithful
      obtain rfl : id'' = id' := Option.some.inj (hshows.handle_eq.symm.trans handle)
      exact hshows.alike hbuilt.shows_exact (hdetached.trans hbuilt.detached.symm)
  | cons new news ih =>
    obtain ⟨hnone, hlinked, -, ⟨id', hat, -⟩, -, -, -⟩ := brought_run linked h new
    rw [List.cons_append, runAll]
    simp only [hnone]
    exact ih hlinked hat

/-- The second patch of a page whose first one replaced a placeholder. -/
theorem brought_runAll_paragraph :
    let placeholder := (Surface.empty.createElement "div").2.appendChild root ⟨1⟩
    let first := (start placeholder).run (.node ⟨1⟩)
      (.element "p" Table.empty [.text "one" none] none)
    let last := Tree.element "p" Table.empty [.text "two" none, .element "b" Table.empty [] none] none
    first.patch.surface.Linked ∧ Shown.At first.patch.surface (.tree first.tree) ⟨2⟩ root ∧
      Brought first.patch.surface (.tree first.tree) ⟨2⟩ root last
        ((start first.patch.surface).run (.tree first.tree) last) := by
  intro placeholder first last
  have hlinked : placeholder.Linked :=
    (((Linked.empty.alloc _).record _).attach (by decide) (by decide) (by decide)).record _
  obtain ⟨-, hlinked', -, ⟨id', hat, -⟩, -, -, -⟩ := brought_run hlinked (.node ⟨1⟩ root rfl)
    (.element "p" Table.empty [.text "one" none] none)
  have hid : id' = ⟨2⟩ := by
    cases hat with
    | tree _ _ _ handle _ _ => exact Option.some.inj (handle.symm.trans (by rfl))
  subst hid
  exact ⟨hlinked', hat, (brought_runAll hlinked' hat).1 last⟩

end

end Patch

end LiveMarkup
