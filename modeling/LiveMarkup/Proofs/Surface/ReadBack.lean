import LiveMarkup.Proofs.Surface.Layout
import LiveMarkup.Proofs.Surface.Record
import LiveMarkup.Tree.Compile

/-!
# Source read back from a surface

A source node that is laid out on a surface reads back as it was written, with repeated attributes merged,
and so does everything below it. Merging attributes makes no difference to the template.

* `Source.at?`, `Surface.at?`: the node at the end of a way down.
* **`Lays.at?`**: what is below a laid out node is laid out at the same place.
* **`Lays.source?`**: a laid out node reads back merged.
* **`Source.compile_merged`**: merging attributes leaves the template as it is.
* `Surface.Added`, **`added_load`**: what loading a node does to the rest of the surface.
-/

namespace LiveMarkup

namespace Source

/-- The node at the end of a way down, which says at each node which of its children comes next. -/
def at? (x : Source) : List Nat → Option Source
  | [] => some x
  | i :: path => x.children[i]?.bind fun c => c.at? path

/-! ## Templates -/

mutual

theorem template?_merged (x : Source) : x.merged.template? = x.template? := by
  cases x with
  | element name attributes children =>
    rw [merged, template?, template?, Table.ofList_entries, templates_mergedAll children]
  | text content => rfl
  | comment content => rfl

theorem templates_mergedAll (xs : List Source) : templates (mergedAll xs) = templates xs := by
  cases xs with
  | nil => rfl
  | cons x xs => rw [mergedAll, templates, templates, template?_merged x, templates_mergedAll xs]

end

/-- **Merging attributes leaves the template as it is**, and also the reason why there is none. -/
theorem compile_merged (x : Source) : x.merged.compile = x.compile := by
  have hkind : x.merged.kind = x.kind := by cases x <;> rfl
  rw [compile, compile, template?_merged, hkind]

end Source

namespace Surface

variable {s s' : Surface}

/-- The node at the end of a way down from a node. -/
def at? (s : Surface) (id : NodeId) : List Nat → Option NodeId
  | [] => some id
  | i :: path => (s.children id)[i]?.bind fun c => s.at? c path

/-! ## Reading a layout -/

/-- The nodes of a layout stand where their source nodes stand. -/
theorem LaysAll.get? {parent : NodeId} {ids : List NodeId} {xs : List Source}
    (h : s.LaysAll parent ids xs) (i : Nat) :
    (ids[i]? = none ∧ xs[i]? = none) ∨
      ∃ id x, ids[i]? = some id ∧ xs[i]? = some x ∧ s.Lays id x := by
  induction i generalizing ids xs with
  | zero =>
    cases h with
    | nil => exact .inl ⟨rfl, rfl⟩
    | cons _ id ids x xs younger head tail => exact .inr ⟨id, x, rfl, rfl, head⟩
  | succ i ih =>
    cases h with
    | nil => exact .inl ⟨rfl, rfl⟩
    | cons _ id ids x xs younger head tail => exact ih tail

/-- The children of a laid out node lay out the children. -/
theorem Lays.children_laid {id : NodeId} {x : Source} (h : s.Lays id x) :
    s.LaysAll id (s.children id) x.children := by
  cases h with
  | leaf id x data single none =>
    have hchildren : x.children = [] := by
      cases x with
      | element => cases single
      | text content => rfl
      | comment content => rfl
    rw [none, hchildren]
    exact .nil id
  | element id name attributes xs data below => exact below

/-- **What is below a laid out node is laid out at the same place.** -/
theorem Lays.at? {id : NodeId} {x : Source} (h : s.Lays id x) (path : List Nat) :
    (s.at? id path = none ∧ x.at? path = none) ∨
      ∃ id' x', s.at? id path = some id' ∧ x.at? path = some x' ∧ s.Lays id' x' := by
  induction path generalizing id x with
  | nil => exact .inr ⟨id, x, rfl, rfl, h⟩
  | cons i path ih =>
    rcases h.children_laid.get? i with ⟨hid, hx⟩ | ⟨c, y, hid, hx, hlays⟩
    · left
      simp [Surface.at?, Source.at?, hid, hx]
    · simp only [Surface.at?, Source.at?, hid, hx, Option.bind_some]
      exact ih hlays

mutual

/-- A layout reads back merged, down to a depth that reaches the youngest node. -/
theorem Lays.readSource_eq {id : NodeId} {x : Source} (h : s.Lays id x) {depth : Nat}
    (hd : s.allocated ≤ depth + id.index) : s.readSource depth id = some x.merged := by
  have hid := lt_of_content? h.content
  obtain ⟨depth, rfl⟩ : ∃ d, depth = d + 1 := ⟨depth - 1, by omega⟩
  cases h with
  | leaf id x data single none =>
    obtain ⟨n, hn, hk, -⟩ := node?_of_content? data
    cases x with
    | element name attributes children => cases single
    | text content => simp only [readSource, hn, hk, contentOf, Source.merged]
    | comment content => simp only [readSource, hn, hk, contentOf, Source.merged]
  | element id name attributes children data below =>
    obtain ⟨n, hn, hk, hchildren⟩ := node?_of_content? data
    have hbelow : (s.children id).filterMap (s.readSource depth) = Source.mergedAll children :=
      below.filterMap_readSource (by omega)
    simp only [readSource, hn, hk, hchildren, hbelow, Source.merged]

theorem LaysAll.filterMap_readSource {parent : NodeId} {ids : List NodeId} {xs : List Source}
    (h : s.LaysAll parent ids xs) {depth : Nat} (hd : s.allocated ≤ depth + (parent.index + 1)) :
    ids.filterMap (s.readSource depth) = Source.mergedAll xs := by
  cases h with
  | nil => rfl
  | cons _ id ids x xs younger head tail =>
    rw [List.filterMap_cons, head.readSource_eq (by omega), tail.filterMap_readSource hd,
      Source.mergedAll]

end

/-- **A laid out node reads back merged.** -/
theorem Lays.source? {id : NodeId} {x : Source} (h : s.Lays id x) : s.source? id = some x.merged :=
  h.readSource_eq (Nat.le_add_right _ _)

/-- On the way down from a node that has a parent every node has one. -/
theorem Linked.exists_parent_at? (hs : s.Linked) {id x : NodeId} {path : List Nat}
    (hid : ∃ q, s.parent? id = some q) (hx : s.at? id path = some x) : ∃ q, s.parent? x = some q := by
  induction path generalizing id with
  | nil =>
    cases hx
    exact hid
  | cons i path ih =>
    rw [Surface.at?] at hx
    obtain ⟨c, hc, hx⟩ := Option.bind_eq_some_iff.1 hx
    exact ih ⟨id, hs.mem_children_iff.1 (List.mem_of_getElem? hc)⟩ hx

/-! ## What loading leaves as it was -/

/-- A node is given by its content, its parent and its children. -/
theorem node?_congr {x : NodeId} (hcontent : s'.content? x = s.content? x)
    (hparent : s'.parent? x = s.parent? x) (hchildren : s'.children x = s.children x) :
    s'.node? x = s.node? x := by
  rw [children_eq_getD, children_eq_getD] at hchildren
  unfold content? at hcontent
  unfold parent? at hparent
  cases hn : s.node? x with
  | none =>
    cases hn' : s'.node? x with
    | none => rfl
    | some n' => simp [hn, hn'] at hcontent
  | some n =>
    cases hn' : s'.node? x with
    | none => simp [hn, hn'] at hcontent
    | some n' =>
      obtain ⟨k, p, cs⟩ := n
      obtain ⟨k', p', cs'⟩ := n'
      simp only [hn, hn', Option.map_some, Option.bind_some, Option.getD_some, Option.some.injEq]
        at hcontent hparent hchildren
      rw [hcontent, hparent, hchildren]

/-- The nodes that were there keep their parents. -/
structure KeepsParents (s s' : Surface) : Prop where
  allocated_le : s.allocated ≤ s'.allocated
  parent : ∀ x, x.index < s.allocated → s'.parent? x = s.parent? x

theorem KeepsParents.refl (s : Surface) : s.KeepsParents s := ⟨Nat.le_refl _, fun _ _ => rfl⟩

theorem KeepsParents.adopt (h : s.KeepsParents s') (p : NodeId) (k : Content) :
    s.KeepsParents ((s'.alloc k).2.attach p ⟨s'.allocated⟩ none) := by
  have hgrows : s.allocated ≤ s'.allocated + 1 := Nat.le_succ_of_le h.allocated_le
  refine ⟨by rwa [allocated_attach, allocated_alloc], fun x hx => ?_⟩
  by_cases hm : (s'.alloc k).2.Movable p ⟨s'.allocated⟩
  · have hne : x ≠ ⟨s'.allocated⟩ := by
      rintro rfl
      exact absurd hx (Nat.not_lt_of_le h.allocated_le)
    rw [parent?_attach hm.1 hm.2.1 hm.2.2, if_neg hne, parent?_alloc, h.parent x hx]
  · rw [attach_of_not_movable hm, parent?_alloc, h.parent x hx]

theorem KeepsParents.load (s : Surface) (p : NodeId) (x : Source) : s.KeepsParents (s.load p x).2 :=
  load_preserves (P := s.KeepsParents) (fun _ q k h => h.adopt q k) (.refl s) p x

theorem KeepsParents.loadAll (s : Surface) (p : NodeId) (xs : List Source) :
    s.KeepsParents (s.loadAll p xs) :=
  loadAll_preserves (P := s.KeepsParents) (fun _ q k h => h.adopt q k) (.refl s) p xs

/-- What is loaded is a child of the node that it is loaded under. -/
theorem parent?_load {p : NodeId} (hp : p.index < s.allocated) (x : Source) :
    (s.load p x).2.parent? ⟨s.allocated⟩ = some p := by
  have hlt : (⟨s.allocated⟩ : NodeId).index < (s.alloc (contentOf x)).2.allocated := by simp
  have hne : p ≠ ⟨s.allocated⟩ := by
    rintro rfl
    exact Nat.lt_irrefl _ hp
  have hplaced : ((s.alloc (contentOf x)).2.attach p ⟨s.allocated⟩ none).parent? ⟨s.allocated⟩ =
      some p := by
    rw [parent?_attach (Nat.lt_trans hp hlt) hlt hne, if_pos rfl]
  cases x with
  | element name attributes children =>
    refine ((KeepsParents.loadAll _ ⟨s.allocated⟩ children).parent _ ?_).trans hplaced
    rwa [allocated_attach]
  | text content => exact hplaced
  | comment content => exact hplaced

theorem log_load (s : Surface) (p : NodeId) (x : Source) : (s.load p x).2.log = s.log :=
  load_preserves (P := fun s' => s'.log = s.log) (fun s' q k h => by simpa using h) rfl p x

/-- A new node at the end of the children of another, and whatever is new below it. Nothing is recorded,
and the other nodes are as they were. -/
structure Added (s : Surface) (p id : NodeId) (s' : Surface) : Prop where
  fresh : s.node? id = none
  linked : s'.parent? id = some p
  last : s'.node? p = (s.node? p).map fun n => { n with children := n.children ++ [id] }
  others : ∀ x, x.index < s.allocated → x ≠ p → s'.node? x = s.node? x
  log : s'.log = s.log

/-- **What is loaded under a node is added there**, unrecorded, and nothing else changes. -/
theorem added_load {p : NodeId} (hp : p.index < s.allocated) (x : Source) :
    s.Added p (s.load p x).1 (s.load p x).2 := by
  obtain ⟨hid, hloaded, -⟩ := lays_load s hp x
  have hparents := KeepsParents.load s p x
  rw [hid]
  refine ⟨node?_eq_none (Nat.le_refl _), parent?_load hp x, ?_, fun y hy hne => ?_, log_load s p x⟩
  · -- the node itself: the same content and parent, and one child more
    let add : List NodeId → List NodeId := fun cs => cs ++ [⟨s.allocated⟩]
    have hfull : (s.load p x).2.node? p =
        (s.modify p fun n => { n with children := add n.children }).node? p := by
      apply node?_congr
      · rw [hloaded.content p hp, content?_modify_children s p p add]
      · rw [hparents.parent p hp, parent?_modify_children s p p add]
      · rw [hloaded.added, children_modify_children s p p add (.inl hp), if_pos rfl]
    rw [hfull, node?_modify, if_pos rfl]
  · exact node?_congr (hloaded.content y hy) (hparents.parent y hy) (hloaded.children y hy hne)

end Surface

end LiveMarkup
