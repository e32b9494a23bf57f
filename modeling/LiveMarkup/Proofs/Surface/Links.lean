import LiveMarkup.Surface.Basic

/-!
# Links between surface nodes

A parent names its children and a child names its parent. This module says what each change of a
surface does to the content, the children and the parent of every node, and that the two sides of
a link stay in agreement.

* `content?_detach`, `children_attach`, …: the three views of a node after each change.
* `Surface.Linked`: the children of a node are the nodes whose parent it is, each listed once.
* **`Linked.attach`**, **`Linked.detach`**: moving a node keeps all links in agreement.
-/

namespace LiveMarkup.Surface

variable {s : Surface} {x p c id : NodeId}

/-! ## Nodes -/

theorem isSome_node?_iff : (s.node? x).isSome ↔ x.index < s.allocated := by
  simp [node?, allocated]

theorem node?_eq_none (h : s.allocated ≤ x.index) : s.node? x = none :=
  Array.getElem?_eq_none h

theorem content?_isSome_iff : (s.content? x).isSome ↔ x.index < s.allocated := by
  rw [content?, Option.isSome_map, isSome_node?_iff]

theorem lt_of_content? {k : Content} (h : s.content? x = some k) : x.index < s.allocated := by
  rw [← content?_isSome_iff, h]; rfl

theorem content?_eq_none (h : s.allocated ≤ x.index) : s.content? x = none := by
  simp [content?, node?_eq_none h]

theorem lt_of_parent? (h : s.parent? c = some p) : c.index < s.allocated := by
  obtain ⟨n, hn, -⟩ := Option.bind_eq_some_iff.1 h
  rw [← isSome_node?_iff, hn]; rfl

theorem children_eq_getD (s : Surface) (x : NodeId) :
    s.children x = ((s.node? x).map (·.children)).getD [] := by
  unfold children; cases s.node? x <;> rfl

theorem lt_of_mem_children (h : c ∈ s.children p) : p.index < s.allocated := by
  rw [← isSome_node?_iff]
  cases hn : s.node? p with
  | none => simp [children_eq_getD, hn] at h
  | some n => rfl

theorem children_eq_nil (h : s.allocated ≤ x.index) : s.children x = [] := by
  simp [children_eq_getD, node?_eq_none h]

theorem parent?_eq_none (h : s.allocated ≤ x.index) : s.parent? x = none := by
  simp [parent?, node?_eq_none h]

/-! ## Elementary changes -/

theorem node?_modify (s : Surface) (id x : NodeId) (f : SurfaceNode → SurfaceNode) :
    (s.modify id f).node? x = if x = id then (s.node? x).map f else s.node? x := by
  obtain ⟨i⟩ := id
  obtain ⟨j⟩ := x
  simp only [node?, modify, Array.getElem?_modify, NodeId.mk.injEq, eq_comm (a := i)]

@[simp] theorem allocated_modify (s : Surface) (id : NodeId) (f : SurfaceNode → SurfaceNode) :
    (s.modify id f).allocated = s.allocated := by
  simp [allocated, modify]

@[simp] theorem content?_record (s : Surface) (op : Op) :
    (s.record op).content? x = s.content? x := rfl

@[simp] theorem children_record (s : Surface) (op : Op) :
    (s.record op).children x = s.children x := rfl

@[simp] theorem parent?_record (s : Surface) (op : Op) :
    (s.record op).parent? x = s.parent? x := rfl

@[simp] theorem allocated_record (s : Surface) (op : Op) :
    (s.record op).allocated = s.allocated := rfl

/-! ### New nodes -/

theorem node?_alloc (s : Surface) (k : Content) (x : NodeId) :
    (s.alloc k).2.node? x = if x = ⟨s.allocated⟩ then some ⟨k, none, []⟩ else s.node? x := by
  obtain ⟨j⟩ := x
  simp only [node?, alloc, allocated, Array.getElem?_push, NodeId.mk.injEq]

@[simp] theorem fst_alloc (s : Surface) (k : Content) : (s.alloc k).1 = ⟨s.allocated⟩ := rfl

@[simp] theorem allocated_alloc (s : Surface) (k : Content) :
    (s.alloc k).2.allocated = s.allocated + 1 := by
  simp [allocated, alloc]

theorem content?_alloc (s : Surface) (k : Content) (x : NodeId) :
    (s.alloc k).2.content? x = if x = ⟨s.allocated⟩ then some k else s.content? x := by
  simp only [content?, node?_alloc]
  split <;> rfl

@[simp] theorem children_alloc (s : Surface) (k : Content) (x : NodeId) :
    (s.alloc k).2.children x = s.children x := by
  rw [children_eq_getD, children_eq_getD, node?_alloc]
  split
  · next h => rw [node?_eq_none (h ▸ Nat.le_refl _)]; rfl
  · rfl

@[simp] theorem parent?_alloc (s : Surface) (k : Content) (x : NodeId) :
    (s.alloc k).2.parent? x = s.parent? x := by
  simp only [parent?, node?_alloc]
  split
  · next h => rw [node?_eq_none (h ▸ Nat.le_refl _)]; rfl
  · rfl

/-! ### Content -/

/-- The surface with the content of one node changed. -/
theorem content?_modify_content (s : Surface) (id x : NodeId) (k : Content) :
    (s.modify id fun n => { n with content := k }).content? x =
      if x = id then (s.content? x).map fun _ => k else s.content? x := by
  simp only [content?, node?_modify]
  split <;> simp [Option.map_map, Function.comp_def]

@[simp] theorem children_modify_content (s : Surface) (id x : NodeId) (k : Content) :
    (s.modify id fun n => { n with content := k }).children x = s.children x := by
  simp only [children_eq_getD, node?_modify]
  split <;> simp [Option.map_map, Function.comp_def]

@[simp] theorem parent?_modify_content (s : Surface) (id x : NodeId) (k : Content) :
    (s.modify id fun n => { n with content := k }).parent? x = s.parent? x := by
  simp only [parent?, node?_modify]
  split
  · cases s.node? x <;> rfl
  · rfl

/-! ### Parents and children -/

@[simp] theorem content?_modify_children (s : Surface) (id x : NodeId)
    (f : List NodeId → List NodeId) :
    (s.modify id fun n => { n with children := f n.children }).content? x = s.content? x := by
  simp only [content?, node?_modify]
  split <;> simp [Option.map_map, Function.comp_def]

theorem children_modify_children (s : Surface) (id x : NodeId) (f : List NodeId → List NodeId)
    (h : id.index < s.allocated ∨ f [] = []) :
    (s.modify id fun n => { n with children := f n.children }).children x =
      if x = id then f (s.children x) else s.children x := by
  simp only [children_eq_getD, node?_modify]
  split
  · next hx =>
    cases hn : s.node? x with
    | some n => rfl
    | none =>
      rcases h with h | h
      · rw [← isSome_node?_iff, ← hx, hn] at h; simp at h
      · simp [h]
  · rfl

@[simp] theorem parent?_modify_children (s : Surface) (id x : NodeId)
    (f : List NodeId → List NodeId) :
    (s.modify id fun n => { n with children := f n.children }).parent? x = s.parent? x := by
  simp only [parent?, node?_modify]
  split
  · cases s.node? x <;> rfl
  · rfl

@[simp] theorem content?_modify_parent (s : Surface) (id x : NodeId) (o : Option NodeId) :
    (s.modify id fun n => { n with parent := o }).content? x = s.content? x := by
  simp only [content?, node?_modify]
  split <;> simp [Option.map_map, Function.comp_def]

@[simp] theorem children_modify_parent (s : Surface) (id x : NodeId) (o : Option NodeId) :
    (s.modify id fun n => { n with parent := o }).children x = s.children x := by
  simp only [children_eq_getD, node?_modify]
  split <;> simp [Option.map_map, Function.comp_def]

theorem parent?_modify_parent (s : Surface) (id x : NodeId) (o : Option NodeId)
    (h : id.index < s.allocated) :
    (s.modify id fun n => { n with parent := o }).parent? x =
      if x = id then o else s.parent? x := by
  simp only [parent?, node?_modify]
  split
  · next hx =>
    rw [← isSome_node?_iff, ← hx] at h
    cases hn : s.node? x with
    | none => simp [hn] at h
    | some n => rfl
  · rfl

/-! ## Taking a node from its parent -/

@[simp] theorem allocated_detach (s : Surface) (id : NodeId) :
    (s.detach id).allocated = s.allocated := by
  unfold detach; split <;> simp

@[simp] theorem content?_detach (s : Surface) (id x : NodeId) :
    (s.detach id).content? x = s.content? x := by
  unfold detach; split <;> simp

theorem parent?_detach (s : Surface) (id x : NodeId) :
    (s.detach id).parent? x = if x = id then none else s.parent? x := by
  unfold detach
  split
  · next h => split <;> simp_all
  · next p h =>
    rw [parent?_modify_parent _ _ _ _ (by rw [allocated_modify]; exact lt_of_parent? h)]
    simp

theorem children_detach (s : Surface) (id x : NodeId) :
    (s.detach id).children x =
      if s.parent? id = some x then (s.children x).filter (· ≠ id) else s.children x := by
  unfold detach
  split
  · next h => simp [h]
  · next p h =>
    rw [children_modify_parent, children_modify_children _ _ _ _ (Or.inr rfl)]
    simp only [h, Option.some.injEq, eq_comm (a := x)]

theorem detach_of_parent?_eq_none (h : s.parent? id = none) : s.detach id = s := by
  simp [detach, h]

/-! ## Placing a node in a list of children -/

theorem placeBefore_perm (r id : NodeId) (cs : List NodeId) :
    (placeBefore r id cs).Perm (id :: cs) := by
  induction cs with
  | nil => exact .refl _
  | cons c cs ih =>
    unfold placeBefore
    split
    · exact .refl _
    · exact (ih.cons c).trans (.swap id c cs)

theorem place_perm (r : Option NodeId) (id : NodeId) (cs : List NodeId) :
    (place r id cs).Perm (id :: cs) := by
  cases r with
  | none => exact List.perm_append_singleton id cs
  | some r => exact placeBefore_perm r id cs

theorem mem_place_iff {r : Option NodeId} {cs : List NodeId} :
    c ∈ place r id cs ↔ c = id ∨ c ∈ cs := by
  rw [(place_perm r id cs).mem_iff, List.mem_cons]

/-- A node is placed right before the reference. -/
theorem placeBefore_append (id : NodeId) {r : NodeId} {pre : List NodeId} (h : r ∉ pre) (post : List NodeId) :
    placeBefore r id (pre ++ r :: post) = pre ++ id :: r :: post := by
  induction pre with
  | nil => simp [placeBefore]
  | cons c pre ih =>
    obtain ⟨hc, hpre⟩ := not_or.1 (mt List.mem_cons.2 h)
    simp [placeBefore, Ne.symm hc, ih hpre]

/-! ## Moving a node under a parent -/

/-- The condition under which a node can be moved under a parent. -/
theorem attach_eq {r : Option NodeId} (hp : p.index < s.allocated) (hid : id.index < s.allocated)
    (hne : p ≠ id) :
    s.attach p id r =
      ((s.detach id).modify p fun n => { n with children := place r id n.children }).modify id
        fun n => { n with parent := some p } := by
  rw [← isSome_node?_iff, Option.isSome_iff_ne_none] at hp hid
  simp [attach, hp, hid, hne]

@[simp] theorem allocated_attach (s : Surface) (p id : NodeId) (r : Option NodeId) :
    (s.attach p id r).allocated = s.allocated := by
  unfold attach; split <;> simp

@[simp] theorem content?_attach (s : Surface) (p id x : NodeId) (r : Option NodeId) :
    (s.attach p id r).content? x = s.content? x := by
  unfold attach; split <;> simp

theorem parent?_attach {r : Option NodeId} (hp : p.index < s.allocated)
    (hid : id.index < s.allocated) (hne : p ≠ id) :
    (s.attach p id r).parent? x = if x = id then some p else s.parent? x := by
  rw [attach_eq hp hid hne, parent?_modify_parent _ _ _ _ (by simpa using hid),
    parent?_modify_children, parent?_detach]
  split <;> rfl

theorem children_attach {r : Option NodeId} (hp : p.index < s.allocated)
    (hid : id.index < s.allocated) (hne : p ≠ id) :
    (s.attach p id r).children x =
      if x = p then place r id ((s.detach id).children p) else (s.detach id).children x := by
  rw [attach_eq hp hid hne, children_modify_parent,
    children_modify_children _ _ _ _ (Or.inl (by simpa using hp))]
  split <;> simp_all

/-! ## Agreement of the links -/

/-- The two sides of every link agree: the children of a node are the nodes whose parent it is,
and no node is listed twice. -/
structure Linked (s : Surface) : Prop where
  mem_children_iff : ∀ {p c}, c ∈ s.children p ↔ s.parent? c = some p
  nodup_children : ∀ p, (s.children p).Nodup

namespace Linked

theorem empty : Surface.empty.Linked where
  mem_children_iff {p c} := by
    obtain ⟨i⟩ := p
    obtain ⟨j⟩ := c
    constructor
    · intro h
      have := lt_of_mem_children h
      have hi : i = 0 := by simpa [allocated, Surface.empty] using this
      subst hi
      simp [children, node?, Surface.empty] at h
    · intro h
      have hj : j = 0 := by simpa [allocated, Surface.empty] using lt_of_parent? h
      subst hj
      simp [parent?, node?, Surface.empty] at h
  nodup_children p := by
    obtain ⟨i⟩ := p
    cases i <;> simp [children, node?, Surface.empty]

/-- Two surfaces with the same parents and children agree in their links. -/
theorem congr {s' : Surface} (h : s.Linked) (hp : ∀ x, s'.parent? x = s.parent? x)
    (hc : ∀ x, s'.children x = s.children x) : s'.Linked where
  mem_children_iff {p c} := by rw [hc, hp, h.mem_children_iff]
  nodup_children p := by rw [hc]; exact h.nodup_children p

theorem alloc (h : s.Linked) (k : Content) : (s.alloc k).2.Linked :=
  h.congr (parent?_alloc s k) (children_alloc s k)

theorem record (h : s.Linked) (op : Op) : (s.record op).Linked :=
  h.congr (fun _ => rfl) fun _ => rfl

theorem not_mem_children (h : s.Linked) (hid : s.parent? id = none) : id ∉ s.children p := by
  rw [h.mem_children_iff, hid]; simp

theorem detach (h : s.Linked) (id : NodeId) : (s.detach id).Linked where
  mem_children_iff {p c} := by
    rw [children_detach, parent?_detach]
    by_cases hc : c = id
    · subst hc
      split
      · simp
      · next hp => rw [h.mem_children_iff]; simp [hp]
    · rw [if_neg hc, ← h.mem_children_iff (p := p) (c := c)]
      split <;> simp [hc]
  nodup_children p := by
    rw [children_detach]
    split
    · exact (h.nodup_children p).filter _
    · exact h.nodup_children p

theorem attach (h : s.Linked) {r : Option NodeId} (hp : p.index < s.allocated)
    (hid : id.index < s.allocated) (hne : p ≠ id) : (s.attach p id r).Linked where
  mem_children_iff {q c} := by
    have hd := h.detach id
    rw [children_attach hp hid hne, parent?_attach hp hid hne]
    have hnone : (s.detach id).parent? id = none := by rw [parent?_detach, if_pos rfl]
    by_cases hc : c = id
    · subst hc
      by_cases hq : q = p
      · subst hq; simp [mem_place_iff]
      · simp [if_neg hq, hd.not_mem_children hnone, Ne.symm hq]
    · rw [if_neg hc, show s.parent? c = (s.detach id).parent? c by rw [parent?_detach, if_neg hc],
        ← hd.mem_children_iff]
      split
      · next hq => rw [mem_place_iff, hq]; simp [hc]
      · rfl
  nodup_children q := by
    have hd := h.detach id
    have hnone : (s.detach id).parent? id = none := by rw [parent?_detach, if_pos rfl]
    rw [children_attach hp hid hne]
    split
    · exact (place_perm r id _).nodup_iff.2
        (List.nodup_cons.2 ⟨hd.not_mem_children hnone, hd.nodup_children p⟩)
    · exact hd.nodup_children q

end Linked

end LiveMarkup.Surface
