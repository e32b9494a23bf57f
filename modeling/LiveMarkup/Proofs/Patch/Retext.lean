import LiveMarkup.Proofs.Patch.Rebuild

/-!
# Patching a tree over one of the same shape

Two trees that differ in their texts only are patched by writing texts. No node is made, moved or
removed, and every node keeps its attributes.

* `Tree.skeleton`: a tree without its texts and handles.
* `Patch.Retexted`: texts were written on the nodes of a tree.
* **`Patch.retexted_update`**: patching over a tree with the same skeleton writes texts.
-/

namespace LiveMarkup

namespace Tree

mutual

/-- A tree without its texts and handles. -/
def skeleton : Tree → Tree
  | element tag attributes children _ => element tag attributes (skeletonList children) none
  | text .. => text "" none

def skeletonList : List Tree → List Tree
  | [] => []
  | t :: ts => t.skeleton :: skeletonList ts

end

mutual

@[simp] theorem skeleton_detached (t : Tree) : t.detached.skeleton = t.skeleton := by
  cases t with
  | text content handle => rfl
  | element tag attributes children handle =>
    rw [detached, skeleton, skeletonList_detachedList, skeleton]

theorem skeletonList_detachedList (ts : List Tree) :
    skeletonList (detachedList ts) = skeletonList ts := by
  cases ts with
  | nil => rfl
  | cons t ts =>
    rw [detachedList, skeletonList, skeleton_detached, skeletonList_detachedList, skeletonList]

end

theorem skeleton_eq_of_detached_eq {t u : Tree} (h : t.detached = u.detached) :
    t.skeleton = u.skeleton := by
  rw [← skeleton_detached t, h, skeleton_detached]

end Tree

namespace Patch

open Surface

/-- Texts were written on the nodes of some handles; nothing else on the surface has changed. -/
structure Retexted (s : Surface) (handles : List NodeId) (s' : Surface) : Prop where
  allocated : s'.allocated = s.allocated
  children : ∀ x, s'.children x = s.children x
  parent : ∀ x, s'.parent? x = s.parent? x
  content : ∀ x, x ∉ handles → s'.content? x = s.content? x

namespace Retexted

variable {s s' s'' : Surface} {handles handles' : List NodeId}

theorem refl (s : Surface) (handles : List NodeId) : Retexted s handles s :=
  ⟨rfl, fun _ => rfl, fun _ => rfl, fun _ _ => rfl⟩

theorem trans (h : Retexted s handles s') (h' : Retexted s' handles' s'') :
    Retexted s (handles ++ handles') s'' where
  allocated := h'.allocated.trans h.allocated
  children x := (h'.children x).trans (h.children x)
  parent x := (h'.parent x).trans (h.parent x)
  content x hx := by
    obtain ⟨hl, hr⟩ := not_or.1 (mt List.mem_append.2 hx)
    rw [h'.content x hr, h.content x hl]

theorem weaken (h : Retexted s handles s') (hsub : ∀ x ∈ handles, x ∈ handles') :
    Retexted s handles' s' :=
  ⟨h.allocated, h.children, h.parent, fun x hx => h.content x fun hm => hx (hsub x hm)⟩

end Retexted

section

variable {fits : NodeId → Attributes → Attributes → Prop}

mutual

/-- **Patching over a tree of the same shape writes texts.** -/
theorem retexted_update (p : Patch) (old new : Tree) {id : NodeId}
    (shows : p.surface.Shows fits id old) (nodup : old.handles.Nodup)
    (same : old.skeleton = new.skeleton) :
    (p.update old new).error = none ∧
      Retexted p.surface old.handles (p.update old new).patch.surface ∧
      (p.update old new).tree.detached = new.detached ∧
      (p.update old new).tree.handles = old.handles ∧
      (p.update old new).patch.surface.Shows fits id (p.update old new).tree := by
  cases shows with
  | text id before data leaf =>
    cases new with
    | element => cases same
    | text content handle =>
      by_cases heq : before = content
      · subst heq
        rw [update_text_self]
        exact ⟨rfl, .refl _ _, rfl, rfl, .text id before data leaf⟩
      · rw [update_text p heq]
        have hs : p.surface.setText id content =
            (p.surface.modify id fun n => { n with content := .text content }).record
              (.setText id content) := by simp [setText, data]
        refine ⟨rfl, ?_, rfl, rfl, .text id content ?_ ?_⟩
        · show Retexted p.surface [id] (p.surface.setText id content)
          rw [hs]
          refine ⟨by simp, fun x => by simp, fun x => by simp, fun x hx => ?_⟩
          rw [content?_record, content?_modify_content, if_neg (by simpa using hx)]
        · show (p.surface.setText id content).content? id = _
          rw [hs]
          simp [content?_modify_content, data]
        · show (p.surface.setText id content).children id = []
          rw [hs]
          simpa using leaf
  | element id tag carried attributes olds data fit below =>
    cases new with
    | text => cases same
    | element tag' attributes' news handle =>
      simp only [Tree.skeleton, Tree.element.injEq, and_true] at same
      obtain ⟨rfl, rfl, same⟩ := same
      have hnodup := List.nodup_cons.1 nodup
      obtain ⟨hnone, hretext, hdetached, hhandles, hshows⟩ :=
        retextedAll_updateChildren p.compared id olds news below hnodup.2 same
      rw [update_element]
      refine ⟨hnone, hretext.weaken fun x hx => List.mem_cons_of_mem _ hx, ?_, ?_, ?_⟩
      · rw [Tree.detached, hdetached, Tree.detached]
      · rw [Tree.handles, hhandles, Tree.handles]
      · refine .element id tag carried attributes _ ?_ fit ?_
        · rw [hretext.content id hnodup.1]
          exact data
        · rw [hretext.children id]
          exact hshows

/-- Lists of children of the same shape are patched by writing texts. -/
theorem retextedAll_updateChildren (p : Patch) (q : NodeId) (olds news : List Tree)
    {ids : List NodeId} (shows : p.surface.ShowsAll fits ids olds)
    (nodup : (Tree.handlesList olds).Nodup)
    (same : Tree.skeletonList olds = Tree.skeletonList news) :
    (p.updateChildren q olds news).error = none ∧
      Retexted p.surface (Tree.handlesList olds) (p.updateChildren q olds news).patch.surface ∧
      Tree.detachedList (p.updateChildren q olds news).tree = Tree.detachedList news ∧
      Tree.handlesList (p.updateChildren q olds news).tree = Tree.handlesList olds ∧
      (p.updateChildren q olds news).patch.surface.ShowsAll fits ids
        (p.updateChildren q olds news).tree := by
  cases news with
  | nil =>
    cases shows with
    | nil =>
      rw [updateChildren, removeOld]
      exact ⟨rfl, .refl _ _, rfl, rfl, .nil⟩
    | cons => cases same
  | cons new news =>
    cases shows with
    | nil => cases same
    | cons id ids old olds head tail =>
      simp only [Tree.skeletonList, List.cons.injEq] at same
      obtain ⟨hold, holds, hdisj⟩ := List.nodup_append.1 nodup
      obtain ⟨hnone, hfirst, hdetached, hhandles, hshows⟩ :=
        retexted_update p old new head hold same.1
      have htail : (p.update old new).patch.surface.ShowsAll fits ids olds :=
        tail.transport (fun x hx => hfirst.content x fun hm => hdisj x hm x hx rfl)
          (fun x _ => hfirst.children x) fun _ _ _ _ e => e
      obtain ⟨hnone', hrest, hdetached', hhandles', hshows'⟩ :=
        retextedAll_updateChildren (p.update old new).patch q olds news htail holds same.2
      rw [updateChildren_cons p hnone]
      refine ⟨hnone', hfirst.trans hrest, ?_, ?_, .cons id ids _ _ ?_ hshows'⟩
      · rw [Tree.detachedList, hdetached, hdetached', Tree.detachedList]
      · rw [Tree.handlesList, hhandles, hhandles', Tree.handlesList]
      · refine hshows.transport (fun x hx => ?_) (fun x _ => hrest.children x) fun _ _ _ _ e => e
        rw [hhandles] at hx
        exact hrest.content x fun hm => hdisj x hx x hm rfl

end

end

end Patch

end LiveMarkup
