import LiveMarkup.Patch
import LiveMarkup.Proofs.Table
import LiveMarkup.Proofs.Surface.Shows

/-!
# Building trees on a surface

A tree is built from new nodes only, numbered in document order, and shown by them with exactly its
attributes. Nothing else on the surface changes, but for the list of children that the tree is
appended to.

* `Surface.Keeps`: two surfaces agree on old nodes, some exceptions aside.
* `Patch.Built`, `Patch.BuiltUnder`: the effect of building a tree, and trees at the end of a list of
  children.
* **`Patch.built_create`**: what `Patch.create` does.
* `Patch.builtUnder_appendNew`: what `Patch.appendNew` does.
-/

namespace LiveMarkup

namespace Surface

variable {s s' s'' : Surface}

/-- Two surfaces agree on the content of all nodes of the first but those in one list, and on the
children of all but those in another. -/
structure Keeps (s s' : Surface) (contents links : List NodeId) : Prop where
  grows : s.allocated ≤ s'.allocated
  content : ∀ x : NodeId, x.index < s.allocated → x ∉ contents → s'.content? x = s.content? x
  children : ∀ x : NodeId, x.index < s.allocated → x ∉ links → s'.children x = s.children x

namespace Keeps

variable {contents contents' links links' : List NodeId}

theorem refl (s : Surface) (contents links : List NodeId) : s.Keeps s contents links :=
  ⟨Nat.le_refl _, fun _ _ _ => rfl, fun _ _ _ => rfl⟩

/-- What the second change touches of the nodes that the first surface has must be allowed. -/
theorem trans (h : s.Keeps s' contents links) (h' : s'.Keeps s'' contents' links')
    (hc : ∀ x ∈ contents', x.index < s.allocated → x ∈ contents)
    (hl : ∀ x ∈ links', x.index < s.allocated → x ∈ links) : s.Keeps s'' contents links where
  grows := Nat.le_trans h.grows h'.grows
  content x hx hn := by
    rw [h'.content x (Nat.lt_of_lt_of_le hx h.grows) fun hm => hn (hc x hm hx), h.content x hx hn]
  children x hx hn := by
    rw [h'.children x (Nat.lt_of_lt_of_le hx h.grows) fun hm => hn (hl x hm hx),
      h.children x hx hn]

theorem weaken (h : s.Keeps s' contents links) (hc : ∀ x ∈ contents, x ∈ contents')
    (hl : ∀ x ∈ links, x ∈ links') : s.Keeps s' contents' links' :=
  ⟨h.grows, fun x hx hn => h.content x hx fun hm => hn (hc x hm),
    fun x hx hn => h.children x hx fun hm => hn (hl x hm)⟩

end Keeps

/-- New nodes in the order of their making. -/
def fresh (n k : Nat) : List NodeId := (List.range' n k).map NodeId.mk

theorem mem_fresh_iff {n k : Nat} {x : NodeId} : x ∈ fresh n k ↔ n ≤ x.index ∧ x.index < n + k := by
  obtain ⟨i⟩ := x
  simp [fresh, List.mem_range'_1]

theorem fresh_append (n k l : Nat) : fresh n k ++ fresh (n + k) l = fresh n (k + l) := by
  rw [fresh, fresh, ← List.map_append, List.range'_append_1]
  rfl

theorem fresh_succ (n k : Nat) : fresh n (1 + k) = ⟨n⟩ :: fresh (n + 1) k := by
  rw [Nat.add_comm, fresh, List.range'_succ, List.map_cons]
  rfl

theorem nodup_fresh (n k : Nat) : (fresh n k).Nodup :=
  List.pairwise_map.2 (List.Pairwise.imp (fun h e => h (NodeId.mk.inj e)) List.nodup_range')

end Surface

namespace Patch

open Surface

/-- A tree built on a surface: the surface after it, the node that shows it, and the tree with its
handles. -/
structure Built (s : Surface) (t : Tree) (s' : Surface) (id : NodeId) (t' : Tree) : Prop where
  id_eq : id = ⟨s.allocated⟩
  linked : s'.Linked
  allocated : s'.allocated = s.allocated + t.count
  detached : t'.detached = t.detached
  handles : t'.handles = fresh s.allocated t.count
  shows_exact : s'.Shows exact id t'
  keeps : s.Keeps s' [] []
  parent : ∀ x : NodeId, x.index ≤ s.allocated → s'.parent? x = s.parent? x

/-- An element made on a surface with all its attributes, and no children yet. -/
structure Opened (s : Surface) (tag : String) (attributes : Attributes) (s' : Surface) : Prop where
  linked : s'.Linked
  allocated : s'.allocated = s.allocated + 1
  content : s'.content? ⟨s.allocated⟩ = some (.element tag attributes)
  keeps : s.Keeps s' [] []
  children : ∀ x, s'.children x = s.children x
  parent : ∀ x, s'.parent? x = s.parent? x

/-- Trees built on a surface at the end of the children of a node. -/
structure BuiltUnder (s : Surface) (parent : NodeId) (ts : List Tree) (s' : Surface)
    (ts' : List Tree) : Prop where
  linked : s'.Linked
  allocated : s'.allocated = s.allocated + Tree.countList ts
  detached : Tree.detachedList ts' = Tree.detachedList ts
  handles : Tree.handlesList ts' = fresh s.allocated (Tree.countList ts)
  shows_exact : ∃ ids, s'.children parent = s.children parent ++ ids ∧ s'.ShowsAll exact ids ts'
  keeps : s.Keeps s' [] [parent]
  parent : ∀ x : NodeId, x.index < s.allocated → s'.parent? x = s.parent? x

/-! ## One node -/

section Nodes

variable {s : Surface}

/-- Writing attributes one by one on an element. -/
theorem content?_setAttributes {id : NodeId} {tag : String} {attributes : Attributes}
    (h : s.content? id = some (.element tag attributes)) (es : List (String × String)) :
    (es.foldl (fun s e => s.setAttribute id e.1 e.2) s).content? id =
      some (.element tag (es.foldl (fun t e => t.insert e.1 e.2) attributes)) := by
  induction es generalizing s attributes with
  | nil => exact h
  | cons e es ih =>
    refine ih ?_
    simp only [setAttribute, h, content?_record, content?_modify_content, if_true, Option.map_some]

theorem setAttributes_other (s : Surface) (id : NodeId) (es : List (String × String)) :
    let s' := es.foldl (fun s e => s.setAttribute id e.1 e.2) s
    s'.allocated = s.allocated ∧ (∀ x, s'.children x = s.children x) ∧
      (∀ x, s'.parent? x = s.parent? x) ∧ ∀ x, x ≠ id → s'.content? x = s.content? x := by
  induction es generalizing s with
  | nil => simp
  | cons e es ih =>
    have step : ∀ x, x ≠ id → (s.setAttribute id e.1 e.2).content? x = s.content? x := by
      intro x hx
      unfold setAttribute
      split
      · simp [content?_modify_content, hx]
      · rfl
    have links : (s.setAttribute id e.1 e.2).allocated = s.allocated ∧
        (∀ x, (s.setAttribute id e.1 e.2).children x = s.children x) ∧
        ∀ x, (s.setAttribute id e.1 e.2).parent? x = s.parent? x := by
      unfold setAttribute
      split <;> simp
    obtain ⟨ha, hc, hp, ho⟩ := ih (s.setAttribute id e.1 e.2)
    refine ⟨ha.trans links.1, fun x => (hc x).trans (links.2.1 x),
      fun x => (hp x).trans (links.2.2 x), fun x hx => (ho x hx).trans (step x hx)⟩

/-- An element is made first, then gets its attributes. -/
theorem opened_element (h : s.Linked) (tag : String) (attributes : Attributes) :
    Opened s tag attributes
      (attributes.entries.foldl
        (fun s' e => s'.setAttribute (s.createElement tag).1 e.1 e.2) (s.createElement tag).2) := by
  have hself : (s.createElement tag).2.content? ⟨s.allocated⟩ =
      some (.element tag Table.empty) := by simp [createElement, content?_alloc]
  have hdressed := content?_setAttributes hself attributes.entries
  rw [← Table.ofList, Table.ofList_entries] at hdressed
  obtain ⟨ha, hc, hp, ho⟩ := setAttributes_other (s.createElement tag).2
    (s.createElement tag).1 attributes.entries
  have hchildren : ∀ x, (s.createElement tag).2.children x = s.children x := fun x => by
    simp [createElement]
  have hparent : ∀ x, (s.createElement tag).2.parent? x = s.parent? x := fun x => by
    simp [createElement]
  have halloc : (s.createElement tag).2.allocated = s.allocated + 1 := by simp [createElement]
  refine ⟨h.congr (fun x => (hp x).trans (hparent x)) fun x => (hc x).trans (hchildren x),
    ha.trans halloc, hdressed, ⟨?_, fun x hx _ => ?_, fun x _ _ => (hc x).trans (hchildren x)⟩,
    fun x => (hc x).trans (hchildren x), fun x => (hp x).trans (hparent x)⟩
  · rw [ha, halloc]; exact Nat.le_succ _
  · have hne : x ≠ ⟨s.allocated⟩ := fun e => by rw [e] at hx; exact Nat.lt_irrefl _ hx
    rw [ho x hne]
    simp [createElement, content?_alloc, hne]

/-- A text node is complete at once. -/
theorem built_text (h : s.Linked) (content : String) (handle : Option NodeId) :
    Built s (.text content handle) (s.createText content).2 ⟨s.allocated⟩
      (.text content (some ⟨s.allocated⟩)) where
  id_eq := rfl
  linked := (h.alloc _).record _
  allocated := by simp [createText, Tree.count]
  detached := rfl
  handles := rfl
  shows_exact := by
    refine .text _ content (by simp [createText, content?_alloc]) ?_
    simp [createText, children_eq_nil]
  keeps := by
    refine ⟨by simp [createText], fun x hx _ => ?_, fun x _ _ => by simp [createText]⟩
    have hne : x ≠ ⟨s.allocated⟩ := fun e => by rw [e] at hx; exact Nat.lt_irrefl _ hx
    simp [createText, content?_alloc, hne]
  parent x _ := by simp [createText]

end Nodes

/-! ## Whole trees -/

section Trees

variable {s s₁ s₂ s₃ : Surface} {parent id : NodeId} {t t' : Tree} {ts ts' : List Tree}

theorem BuiltUnder.nil (h : s.Linked) : BuiltUnder s parent [] s [] where
  linked := h
  allocated := rfl
  detached := rfl
  handles := rfl
  shows_exact := ⟨[], by simp, .nil⟩
  keeps := .refl _ _ _
  parent _ _ := rfl

namespace Built

theorem lt_allocated (h : Built s t s₁ id t') : id.index < s₁.allocated :=
  h.shows_exact.allocated id h.shows_exact.mem_handles

theorem index_eq (h : Built s t s₁ id t') : id.index = s.allocated := by rw [h.id_eq]

theorem ne_of_lt (h : Built s t s₁ id t') {x : NodeId} (hx : x.index < s.allocated) : x ≠ id :=
  fun e => by rw [e, h.index_eq] at hx; exact Nat.lt_irrefl _ hx

/-- The root of a new tree has no parent. -/
theorem orphan (h : Built s t s₁ id t') : s₁.parent? id = none := by
  rw [h.parent id (Nat.le_of_eq h.index_eq), parent?_eq_none (Nat.le_of_eq h.index_eq.symm)]

theorem linked_append (h : Built s t s₁ id t') (hp : parent.index < s.allocated) :
    (s₁.appendChild parent id).Linked :=
  (h.linked.attach (Nat.lt_of_lt_of_le hp h.keeps.grows) h.lt_allocated (h.ne_of_lt hp)).record _

theorem children_append (h : Built s t s₁ id t') (hp : parent.index < s.allocated) (x : NodeId) :
    (s₁.appendChild parent id).children x =
      if x = parent then s₁.children parent ++ [id] else s₁.children x := by
  simp only [appendChild, children_record, detach_of_parent?_eq_none h.orphan, place,
    children_attach (Nat.lt_of_lt_of_le hp h.keeps.grows) h.lt_allocated (h.ne_of_lt hp)]

end Built

@[simp] theorem allocated_appendChild (s : Surface) (p c : NodeId) :
    (s.appendChild p c).allocated = s.allocated := by simp [appendChild]

@[simp] theorem content?_appendChild (s : Surface) (p c x : NodeId) :
    (s.appendChild p c).content? x = s.content? x := by simp [appendChild]

/-- A new tree is appended, and others after it. -/
theorem BuiltUnder.cons (hp : parent.index < s.allocated) (head : Built s t s₁ id t')
    (tail : BuiltUnder (s₁.appendChild parent id) parent ts s₃ ts') :
    BuiltUnder s parent (t :: ts) s₃ (t' :: ts') := by
  have happend : s₁.Keeps (s₁.appendChild parent id) [] [parent] :=
    ⟨by simp, fun x _ _ => by simp, fun x _ hx => by
      rw [head.children_append hp, if_neg (by simpa using hx)]⟩
  obtain ⟨ids, hids, hshows⟩ := tail.shows_exact
  refine ⟨tail.linked, ?_, ?_, ?_, ⟨id :: ids, ?_, .cons id ids t' ts' ?_ hshows⟩, ?_, ?_⟩
  · rw [tail.allocated, allocated_appendChild, head.allocated, Tree.countList, Nat.add_assoc]
  · rw [Tree.detachedList, head.detached, tail.detached, Tree.detachedList]
  · rw [Tree.handlesList, head.handles, tail.handles, allocated_appendChild, head.allocated,
      fresh_append, Tree.countList]
  · rw [hids, head.children_append hp, if_pos rfl, head.keeps.children parent hp (by simp),
      List.append_assoc]
    rfl
  · -- The nodes of the first tree are new, so that `parent` is none of them.
    have hold : ∀ x ∈ t'.handles, x.index < s₁.allocated ∧ x ≠ parent := by
      intro x hx
      refine ⟨head.shows_exact.allocated x hx, fun e => ?_⟩
      rw [head.handles, mem_fresh_iff, e] at hx
      omega
    refine head.shows_exact.transport (fun x hx => ?_) (fun x hx => ?_) fun _ _ _ _ e => e
    · rw [tail.keeps.content x (by simpa using (hold x hx).1) (by simp), content?_appendChild]
    · rw [tail.keeps.children x (by simpa using (hold x hx).1) (by simp [(hold x hx).2]),
        head.children_append hp, if_neg (hold x hx).2]
  · exact (head.keeps.weaken (fun _ h => h) (by simp)).trans
      (happend.trans tail.keeps (fun _ h _ => h) fun _ h _ => h) (fun _ h _ => h) fun _ h _ => h
  · intro x hx
    have hx₁ := Nat.lt_of_lt_of_le hx head.keeps.grows
    rw [tail.parent x (by simpa using hx₁), appendChild, parent?_record,
      parent?_attach (Nat.lt_of_lt_of_le hp head.keeps.grows) head.lt_allocated (head.ne_of_lt hp),
      if_neg (head.ne_of_lt hx), head.parent x (Nat.le_of_lt hx)]

/-- An element is complete when its children are built under it. -/
theorem Built.element {tag : String} {attributes : Attributes} (handle : Option NodeId)
    (hopened : Opened s tag attributes s₂) (below : BuiltUnder s₂ ⟨s.allocated⟩ ts s₃ ts') :
    Built s (.element tag attributes ts handle) s₃ ⟨s.allocated⟩
      (.element tag attributes ts' (some ⟨s.allocated⟩)) := by
  have hlt : s.allocated < s₂.allocated := by rw [hopened.allocated]; exact Nat.lt_succ_self _
  obtain ⟨ids, hids, hshows⟩ := below.shows_exact
  rw [hopened.children, children_eq_nil (x := ⟨s.allocated⟩) (Nat.le_refl _), List.nil_append]
    at hids
  refine ⟨rfl, below.linked, ?_, ?_, ?_, ?_, ?_, fun x hx => ?_⟩
  · rw [below.allocated, hopened.allocated, Tree.count, Nat.add_assoc]
  · rw [Tree.detached, below.detached, Tree.detached]
  · rw [Tree.handles, below.handles, hopened.allocated, Tree.count, fresh_succ]
    rfl
  · refine .element _ tag attributes attributes _ ?_ rfl (hids ▸ hshows)
    rw [below.keeps.content ⟨s.allocated⟩ hlt (by simp), hopened.content]
  · refine hopened.keeps.trans below.keeps (fun _ h _ => h) fun x h hx => ?_
    rw [List.mem_singleton.1 h] at hx
    exact absurd hx (Nat.lt_irrefl _)
  · rw [below.parent x (Nat.lt_of_le_of_lt hx hlt), hopened.parent]

end Trees

mutual

/-- **Building a tree makes new nodes that show it, and changes nothing else.** -/
theorem built_create (p : Patch) (t : Tree) (h : p.surface.Linked) :
    Built p.surface t (p.create t).2.2.surface (p.create t).1 (p.create t).2.1 := by
  cases t with
  | text content handle => exact built_text h content handle
  | element tag attributes children handle =>
    have hopened := opened_element h tag attributes
    exact .element handle hopened (builtUnder_createChildren ⟨_, _⟩ _ children hopened.linked
      (by rw [hopened.allocated]; exact Nat.lt_succ_self _))

/-- Children are built and appended one by one. -/
theorem builtUnder_createChildren (p : Patch) (parent : NodeId) (ts : List Tree)
    (h : p.surface.Linked) (hp : parent.index < p.surface.allocated) :
    BuiltUnder p.surface parent ts (p.createChildren parent ts).2.surface
      (p.createChildren parent ts).1 := by
  cases ts with
  | nil => exact .nil h
  | cons t ts =>
    have head := built_create p t h
    exact .cons hp head (builtUnder_createChildren
      ((p.create t).2.2.onSurface fun s => s.appendChild parent (p.create t).1) parent ts
      (head.linked_append hp)
      (Nat.lt_of_lt_of_le hp (by simpa [onSurface] using head.keeps.grows)))

end

/-- Trees new at the end of a list of children are built there. -/
theorem builtUnder_appendNew (p : Patch) (parent : NodeId) (ts : List Tree)
    (h : p.surface.Linked) (hp : parent.index < p.surface.allocated) :
    BuiltUnder p.surface parent ts (p.appendNew parent ts).2.surface
      (p.appendNew parent ts).1 := by
  induction ts generalizing p with
  | nil => exact .nil h
  | cons t ts ih =>
    have head := built_create p t h
    exact .cons hp head (ih
      (((p.create t).2.2.onSurface fun s => s.appendChild parent (p.create t).1).count
        fun r => { r with appended := r.appended + 1 })
      (head.linked_append hp)
      (Nat.lt_of_lt_of_le hp (by simpa [onSurface, count] using head.keeps.grows)))

end Patch

end LiveMarkup
