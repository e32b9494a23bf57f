import LiveMarkup.Proofs.Patch.Retext
import LiveMarkup.Proofs.Surface.Markup

/-!
# Texts written after the first paint

A tree painted on a surface, whose texts are then written over, leaves the surface as if the tree with
the later texts had been painted at first.

* `Tree.count_skeleton`: trees of the same shape have the same number of nodes.
* `Shows.agree`: nodes that show the same tree with the same handles have the same content.
* `Patch.Painted`: a tree was painted, and its texts were written over since.
* **`Painted.twins`**: painting and writing texts is painting the later tree.
-/

namespace LiveMarkup

namespace Tree

mutual

theorem count_skeleton (t : Tree) : t.skeleton.count = t.count := by
  cases t with
  | text content handle => rfl
  | element tag attributes children handle =>
    rw [skeleton, count, countList_skeletonList, count]

theorem countList_skeletonList (ts : List Tree) : countList (skeletonList ts) = countList ts := by
  cases ts with
  | nil => rfl
  | cons t ts => rw [skeletonList, countList, count_skeleton, countList_skeletonList, countList]

end

theorem count_eq_of_skeleton_eq {t u : Tree} (h : t.skeleton = u.skeleton) : t.count = u.count := by
  rw [← count_skeleton t, h, count_skeleton]

end Tree

namespace Surface

variable {s s' : Surface} {fits : NodeId → Attributes → Attributes → Prop}

mutual

/-- Every node of a tree that is shown has a handle. -/
theorem Shows.length_handles {x : NodeId} {t : Tree} (h : s.Shows fits x t) :
    t.handles.length = t.count := by
  cases h with
  | text x content data leaf => rfl
  | element x tag carried attributes ts data fit below =>
    rw [Tree.handles, List.length_append, below.length_handles, Tree.count]
    rfl

theorem ShowsAll.length_handles {xs : List NodeId} {ts : List Tree} (h : s.ShowsAll fits xs ts) :
    (Tree.handlesList ts).length = Tree.countList ts := by
  cases h with
  | nil => rfl
  | cons x xs t ts head tail =>
    rw [Tree.handlesList, List.length_append, head.length_handles, tail.length_handles,
      Tree.countList]

end

theorem Shows.head?_handles {x : NodeId} {t : Tree} (h : s.Shows fits x t) :
    t.handles.head? = some x := by
  cases h <;> rfl

mutual

/-- Nodes that show the same tree with the same handles have the same content and children. -/
theorem Shows.agree {s s' : Surface} {x x' : NodeId} {t t' : Tree} (h : s.Shows exact x t)
    (h' : s'.Shows exact x' t') (same : t.detached = t'.detached) (handles : t.handles = t'.handles) :
    x = x' ∧ ∀ y ∈ t.handles, s'.content? y = s.content? y ∧ s'.children y = s.children y := by
  cases h with
  | text x content data leaf =>
    cases h' with
    | element => cases same
    | text x' content' data' leaf' =>
      cases same
      obtain rfl : x = x' := List.head_eq_of_cons_eq handles
      refine ⟨rfl, fun y hy => ?_⟩
      rw [List.mem_singleton.1 hy, data, data', leaf, leaf']
      exact ⟨rfl, rfl⟩
  | element x tag carried attributes ts data fit below =>
    cases h' with
    | text => cases same
    | element x' tag' carried' attributes' ts' data' fit' below' =>
      simp only [Tree.detached, Tree.element.injEq, and_true] at same
      obtain ⟨rfl, rfl, same⟩ := same
      obtain rfl : x = x' := List.head_eq_of_cons_eq handles
      obtain ⟨hids, hbelow⟩ := below.agree below' same (List.tail_eq_of_cons_eq handles)
      refine ⟨rfl, fun y hy => ?_⟩
      rcases List.mem_cons.1 hy with rfl | hy
      · rw [data, data', fit, fit', hids]
        exact ⟨rfl, rfl⟩
      · exact hbelow y hy

theorem ShowsAll.agree {s s' : Surface} {xs xs' : List NodeId} {ts ts' : List Tree}
    (h : s.ShowsAll exact xs ts) (h' : s'.ShowsAll exact xs' ts')
    (same : Tree.detachedList ts = Tree.detachedList ts')
    (handles : Tree.handlesList ts = Tree.handlesList ts') :
    xs = xs' ∧ ∀ y ∈ Tree.handlesList ts,
      s'.content? y = s.content? y ∧ s'.children y = s.children y := by
  cases h with
  | nil =>
    cases h' with
    | nil => exact ⟨rfl, fun _ hy => absurd hy List.not_mem_nil⟩
    | cons => cases same
  | cons x xs t ts head tail =>
    cases h' with
    | nil => cases same
    | cons x' xs' t' ts' head' tail' =>
      simp only [Tree.detachedList, List.cons.injEq] at same
      have hcount := Tree.count_eq_of_skeleton_eq (Tree.skeleton_eq_of_detached_eq same.1)
      obtain ⟨hfirst, hrest⟩ := List.append_inj handles
        (by rw [head.length_handles, head'.length_handles, hcount])
      obtain ⟨rfl, hhead⟩ := head.agree head' same.1 hfirst
      obtain ⟨rfl, htail⟩ := tail.agree tail' same.2 hrest
      exact ⟨rfl, List.forall_mem_append.2 ⟨hhead, htail⟩⟩

end

end Surface

namespace Patch

open Surface

variable {s s' : Surface} {q target : NodeId} {b b' t : Tree} {el : NodeId}

@[simp] theorem allocated_removeChild (s : Surface) (q x : NodeId) :
    (s.removeChild q x).allocated = s.allocated := by
  unfold removeChild
  split
  · rw [allocated_record, allocated_detach]
  · rfl

@[simp] theorem allocated_insertBefore (s : Surface) (q x : NodeId) (r : Option NodeId) :
    (s.insertBefore q x r).allocated = s.allocated := by
  rw [insertBefore, allocated_record, allocated_attach]

/-- A first paint numbers its nodes in document order. -/
theorem fresh_mount (linked : s.Linked) (hq : s.parent? target = some q) (b : Tree) :
    ((start s).mount target b).tree.handles = fresh s.allocated b.count ∧
      ((start s).mount target b).patch.surface.allocated = s.allocated + b.count := by
  have hbuilt := built_create (start s) b linked
  have hq' : (start s).surface.parent? target = some q := hq
  unfold mount
  rw [hq']
  refine ⟨hbuilt.handles, ?_⟩
  show ((insertBefore _ _ _ _).removeChild _ _).allocated = _
  rw [allocated_removeChild, allocated_insertBefore, hbuilt.allocated]
  rfl

/-- A tree was painted over a node of a surface, and its texts were written over since. -/
structure Painted (s : Surface) (target : NodeId) (t : Tree) (s' : Surface) : Prop where
  linked : s.Linked
  attached : ∃ q, s.parent? target = some q
  texts : ∃ b : Tree, b.skeleton = t.skeleton ∧
    t.handles = ((start s).mount target b).tree.handles ∧
    Retexted ((start s).mount target b).patch.surface t.handles s'

theorem Painted.first (linked : s.Linked) (hq : s.parent? target = some q) (b : Tree) :
    Painted s target ((start s).mount target b).tree ((start s).mount target b).patch.surface := by
  obtain ⟨-, id, hplaced⟩ := placed_mount (start s) target b linked hq
  exact ⟨linked, ⟨q, hq⟩, b, (Tree.skeleton_eq_of_detached_eq hplaced.detached).symm, rfl, .refl _ _⟩

theorem Painted.retext {s'' : Surface} {t' : Tree} (h : Painted s target t s')
    (retexted : Retexted s' t.handles s'') (handles : t'.handles = t.handles)
    (same : t'.skeleton = t.skeleton) : Painted s target t' s'' := by
  obtain ⟨b, hb, hhandles, hretexted⟩ := h.texts
  refine ⟨h.linked, h.attached, b, hb.trans same.symm, handles.trans hhandles, ?_⟩
  rw [handles]
  exact (hretexted.trans retexted).weaken fun x hx => (List.mem_append.1 hx).elim id id

/-- **Painting a tree and then writing its texts is painting the later tree.** -/
theorem Painted.twins (h : Painted s target t s') (shows_exact : s'.Shows exact el t)
    (detached : t.detached = b'.detached) :
    ((start s).mount target b').patch.surface.Twins s' := by
  obtain ⟨q, hq⟩ := h.attached
  obtain ⟨b, hsame, handles, retexted⟩ := h.texts
  have linked := h.linked
  have same : b.skeleton = b'.skeleton :=
    hsame.trans (Tree.skeleton_eq_of_detached_eq detached)
  rw [handles] at retexted
  obtain ⟨hhandles, hallocated⟩ := fresh_mount linked hq b
  obtain ⟨hhandles', hallocated'⟩ := fresh_mount linked hq b'
  obtain ⟨-, id, hplaced⟩ := placed_mount (start s) target b linked hq
  obtain ⟨-, id', hplaced'⟩ := placed_mount (start s) target b' linked hq
  have hsame : t.handles = ((start s).mount target b').tree.handles := by
    rw [handles, hhandles, hhandles', Tree.count_eq_of_skeleton_eq same]
  have hpainted : ((start s).mount target b').patch.surface.Shows exact id'
      ((start s).mount target b').tree :=
    hplaced'.shows_but.mono fun _ _ _ _ hfit => hfit List.not_mem_nil
  obtain ⟨-, hagree⟩ := hpainted.agree shows_exact (hplaced'.detached.trans detached.symm) hsame.symm
  have hid : id = id' := by
    have hhead := hplaced.shows_but.head?_handles
    rw [← handles, hsame, hpainted.head?_handles] at hhead
    exact (Option.some.inj hhead).symm
  have halloc : s'.allocated = ((start s).mount target b').patch.surface.allocated := by
    rw [retexted.allocated, hallocated, hallocated', Tree.count_eq_of_skeleton_eq same]
  have hfresh : ∀ x : NodeId, s.allocated ≤ x.index → x.index < s'.allocated →
      x ∈ ((start s).mount target b').tree.handles := by
    intro x hx hlt
    rw [hhandles', mem_fresh_iff, ← hallocated', ← halloc]
    exact ⟨hx, hlt⟩
  refine ⟨halloc, fun x => ?_, fun x => ?_⟩
  · by_cases hold : x.index < s.allocated
    · have hnot : x ∉ ((start s).mount target b).tree.handles := by
        rw [hhandles, mem_fresh_iff]
        exact fun hm => absurd hold (Nat.not_lt_of_le hm.1)
      rw [retexted.content x hnot, hplaced.keeps.content x hold List.not_mem_nil,
        hplaced'.keeps.content x hold List.not_mem_nil]
    · by_cases hlt : x.index < s'.allocated
      · exact (hagree x (hfresh x (Nat.le_of_not_lt hold) hlt)).1
      · rw [content?_eq_none (Nat.le_of_not_lt hlt),
          content?_eq_none (halloc ▸ Nat.le_of_not_lt hlt)]
  · by_cases hold : x.index < s.allocated
    · rw [retexted.children]
      by_cases hx : x = q
      · obtain ⟨pre, post, hsplit⟩ := List.append_of_mem (linked.mem_children_iff.2 hq)
        rw [hx, hplaced.place pre post hsplit, hplaced'.place pre post hsplit, hid]
      · have hnot : x ∉ [q] := by simpa using hx
        rw [hplaced.keeps.children x hold hnot, hplaced'.keeps.children x hold hnot]
    · by_cases hlt : x.index < s'.allocated
      · exact (hagree x (hfresh x (Nat.le_of_not_lt hold) hlt)).2
      · rw [children_eq_nil (Nat.le_of_not_lt hlt),
          children_eq_nil (halloc ▸ Nat.le_of_not_lt hlt)]

end Patch

end LiveMarkup
