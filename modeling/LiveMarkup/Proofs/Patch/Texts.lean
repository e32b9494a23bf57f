import LiveMarkup.Proofs.Patch.Retext
import LiveMarkup.Proofs.Surface.Worked

/-!
# The work of patching a tree over one of the same shape

What a patch does to a surface when only texts differ does not depend on the surface: it writes each
text that has changed on the node that was recorded for it, in document order, and does nothing else.

* `Tree.texts`, `Tree.textHandles`: the texts of a tree, and the nodes recorded for them.
* `Tree.Handled`: a node is recorded for every node of a tree.
* `changedTexts`: the texts to be written, each with its node.
* **`Patch.rewritten_update`**: patching over a tree of the same shape writes these.
* **`Patch.worked_create`**, `Patch.worked_mount`: a tree that is built is handled, its texts by text nodes.
-/

namespace LiveMarkup

namespace Tree

mutual

/-- The texts of a tree, in document order. -/
def texts : Tree → List String
  | element _ _ children _ => textsList children
  | text content _ => [content]

def textsList : List Tree → List String
  | [] => []
  | t :: ts => t.texts ++ textsList ts

end

mutual

/-- The nodes recorded for the texts of a tree, in document order. -/
def textHandles : Tree → List NodeId
  | element _ _ children _ => textHandlesList children
  | text _ handle => handle.toList

def textHandlesList : List Tree → List NodeId
  | [] => []
  | t :: ts => t.textHandles ++ textHandlesList ts

end

mutual

/-- A node is recorded for every node of a tree. -/
def Handled : Tree → Prop
  | element _ _ children handle => handle.isSome ∧ HandledAll children
  | text _ handle => handle.isSome

def HandledAll : List Tree → Prop
  | [] => True
  | t :: ts => t.Handled ∧ HandledAll ts

end

mutual

theorem Handled.length_textHandles {t : Tree} (h : t.Handled) :
    t.textHandles.length = t.texts.length := by
  cases t with
  | element tag attributes children handle => exact HandledAll.length_textHandlesList h.2
  | text content handle =>
    obtain ⟨id, rfl⟩ := Option.isSome_iff_exists.1 h
    rfl

theorem HandledAll.length_textHandlesList {ts : List Tree} (h : HandledAll ts) :
    (textHandlesList ts).length = (textsList ts).length := by
  cases ts with
  | nil => rfl
  | cons t ts =>
    rw [textHandlesList, textsList, List.length_append, List.length_append, h.1.length_textHandles,
      HandledAll.length_textHandlesList h.2]

end

mutual

theorem length_texts_eq {t u : Tree} (h : t.skeleton = u.skeleton) : t.texts.length = u.texts.length := by
  cases t with
  | text content handle =>
    cases u with
    | text => rfl
    | element => cases h
  | element tag attributes ts handle =>
    cases u with
    | text => cases h
    | element tag' attributes' us handle' =>
      simp only [skeleton, element.injEq] at h
      exact length_textsList_eq h.2.2.1

theorem length_textsList_eq {ts us : List Tree} (h : skeletonList ts = skeletonList us) :
    (textsList ts).length = (textsList us).length := by
  cases ts with
  | nil =>
    cases us with
    | nil => rfl
    | cons => cases h
  | cons t ts =>
    cases us with
    | nil => cases h
    | cons u us =>
      simp only [skeletonList, List.cons.injEq] at h
      rw [textsList, textsList, List.length_append, List.length_append, length_texts_eq h.1,
        length_textsList_eq h.2]

end

end Tree

/-- The texts that have changed, each with the node recorded for it. -/
def changedTexts (ids : List NodeId) (before after : List String) : List (NodeId × String) :=
  (ids.zip (before.zip after)).filterMap fun c => if c.2.1 = c.2.2 then none else some (c.1, c.2.2)

theorem changedTexts_append {ids ids' : List NodeId} {before before' after after' : List String}
    (hids : ids.length = before.length) (htexts : before.length = after.length) :
    changedTexts (ids ++ ids') (before ++ before') (after ++ after') =
      changedTexts ids before after ++ changedTexts ids' before' after' := by
  unfold changedTexts
  rw [List.zip_append htexts, List.zip_append (by simp [hids, htexts]), List.filterMap_append]

theorem mem_of_mem_changedTexts {ids : List NodeId} {before after : List String}
    {c : NodeId × String} (h : c ∈ changedTexts ids before after) : c.1 ∈ ids := by
  obtain ⟨⟨id, texts⟩, hmem, hc⟩ := List.mem_filterMap.1 h
  split at hc
  · cases hc
  · cases hc
    exact (List.of_mem_zip hmem).1

namespace Patch

open Surface

/-- Nodes of trees were compared, and texts were written. -/
structure Rewritten (p : Patch) (count : Nat) (changes : List (NodeId × String)) (p' : Patch) :
    Prop where
  surface : p'.surface = p.surface.writeTexts changes
  report : p'.report =
    { p.report with
      patched := p.report.patched + count
      textWrites := p.report.textWrites + changes.length }

theorem Rewritten.trans {p p' p'' : Patch} {n k : Nat} {changes more : List (NodeId × String)}
    (h : p.Rewritten n changes p') (h' : p'.Rewritten k more p'') :
    p.Rewritten (n + k) (changes ++ more) p'' where
  surface := by rw [h'.surface, h.surface, writeTexts_append]
  report := by
    rw [h'.report, h.report, List.length_append]
    simp only [Nat.add_assoc]

mutual

/-- **Patching over a tree of the same shape writes the texts that have changed**, each on the node
recorded for it, in document order. -/
theorem rewritten_update (p : Patch) (old new : Tree) (handled : old.Handled)
    (same : old.skeleton = new.skeleton) :
    p.Rewritten old.count (changedTexts old.textHandles old.texts new.texts) (p.update old new).patch ∧
      (p.update old new).error = none ∧
      (p.update old new).tree.detached = new.detached ∧
      (p.update old new).tree.handles = old.handles ∧
      (p.update old new).tree.textHandles = old.textHandles ∧
      (p.update old new).tree.handle = old.handle ∧
      (p.update old new).tree.Handled := by
  cases old with
  | text before recorded =>
    obtain ⟨id, rfl⟩ := Option.isSome_iff_exists.1 handled
    cases new with
    | element => cases same
    | text content handle =>
      by_cases heq : before = content
      · subst heq
        have hchanged : changedTexts [id] [before] [before] = [] := by simp [changedTexts]
        rw [update_text_self, Tree.textHandles, Tree.texts, Tree.texts, Option.toList_some, hchanged]
        exact ⟨⟨rfl, rfl⟩, rfl, rfl, rfl, rfl, rfl, rfl⟩
      · have hchanged : changedTexts [id] [before] [content] = [(id, content)] := by
          simp [changedTexts, heq]
        rw [update_text p heq, Tree.textHandles, Tree.texts, Tree.texts, Option.toList_some, hchanged]
        exact ⟨⟨rfl, rfl⟩, rfl, rfl, rfl, rfl, rfl, rfl⟩
  | element tag carried olds recorded =>
    obtain ⟨hsome, handled⟩ := handled
    obtain ⟨id, rfl⟩ := Option.isSome_iff_exists.1 hsome
    cases new with
    | text => cases same
    | element tag' attributes news handle =>
      simp only [Tree.skeleton, Tree.element.injEq, and_true] at same
      obtain ⟨rfl, rfl, same⟩ := same
      have hone : p.Rewritten 1 [] p.compared := ⟨rfl, rfl⟩
      obtain ⟨hall, hnone, hdetached, hhandles, htexts, hhandled⟩ :=
        rewrittenAll_updateChildren p.compared id olds news handled same
      rw [update_element]
      refine ⟨hone.trans hall, hnone, ?_, ?_, htexts, rfl, rfl, hhandled⟩
      · rw [Tree.detached, hdetached, Tree.detached]
      · rw [Tree.handles, hhandles, Tree.handles]

/-- Lists of children of the same shape are patched by writing texts. -/
theorem rewrittenAll_updateChildren (p : Patch) (q : NodeId) (olds news : List Tree)
    (handled : Tree.HandledAll olds) (same : Tree.skeletonList olds = Tree.skeletonList news) :
    p.Rewritten (Tree.countList olds)
        (changedTexts (Tree.textHandlesList olds) (Tree.textsList olds) (Tree.textsList news))
        (p.updateChildren q olds news).patch ∧
      (p.updateChildren q olds news).error = none ∧
      Tree.detachedList (p.updateChildren q olds news).tree = Tree.detachedList news ∧
      Tree.handlesList (p.updateChildren q olds news).tree = Tree.handlesList olds ∧
      Tree.textHandlesList (p.updateChildren q olds news).tree = Tree.textHandlesList olds ∧
      Tree.HandledAll (p.updateChildren q olds news).tree := by
  cases olds with
  | nil =>
    cases news with
    | cons => cases same
    | nil =>
      rw [updateChildren, removeOld]
      exact ⟨⟨rfl, rfl⟩, rfl, rfl, rfl, rfl, trivial⟩
  | cons old olds =>
    cases news with
    | nil => cases same
    | cons new news =>
      simp only [Tree.skeletonList, List.cons.injEq] at same
      obtain ⟨hfirst, hnone, hdetached, hhandles, htexts, -, hhandled⟩ :=
        rewritten_update p old new handled.1 same.1
      obtain ⟨hrest, hnone', hdetached', hhandles', htexts', hhandled'⟩ :=
        rewrittenAll_updateChildren (p.update old new).patch q olds news handled.2 same.2
      rw [updateChildren_cons p hnone]
      refine ⟨?_, hnone', ?_, ?_, ?_, hhandled, hhandled'⟩
      · rw [Tree.textHandlesList, Tree.textsList, Tree.textsList,
          changedTexts_append handled.1.length_textHandles (Tree.length_texts_eq same.1)]
        exact hfirst.trans hrest
      · rw [Tree.detachedList, hdetached, hdetached', Tree.detachedList]
      · rw [Tree.handlesList, hhandles, hhandles', Tree.handlesList]
      · rw [Tree.textHandlesList, htexts, htexts', Tree.textHandlesList]

end

/-! ## Building -/

theorem worked_setAttributes (s : Surface) (id : NodeId) (es : List (String × String)) :
    s.Worked (es.foldl (fun s e => s.setAttribute id e.1 e.2) s) := by
  induction es generalizing s with
  | nil => exact .refl
  | cons e es ih => exact Worked.trans (.setAttribute s id e.1 e.2 .refl) (ih _)

theorem isText_createText (s : Surface) (text : String) :
    (s.createText text).2.IsText (s.createText text).1 :=
  ⟨text, by simp [createText, content?_alloc]⟩

mutual

/-- **A tree is built by operations of the surface**; a node is recorded for every node of it, and text
nodes for its texts. -/
theorem worked_create (p : Patch) (t : Tree) :
    p.surface.Worked (p.create t).2.2.surface ∧ (p.create t).2.1.Handled ∧
      (p.create t).2.1.detached = t.detached ∧
      ∀ x ∈ (p.create t).2.1.textHandles, (p.create t).2.2.surface.IsText x := by
  cases t with
  | text content handle =>
    refine ⟨.createText _ content .refl, rfl, rfl, fun x hx => ?_⟩
    obtain rfl := List.mem_singleton.1 hx
    exact isText_createText p.surface content
  | element tag attributes children handle =>
    have hopened := worked_setAttributes (p.surface.createElement tag).2
      (p.surface.createElement tag).1 attributes.entries
    obtain ⟨hworked, hhandled, hdetached, htexts⟩ := workedAll_createChildren
      ⟨attributes.entries.foldl (fun s e => s.setAttribute (p.surface.createElement tag).1 e.1 e.2)
        (p.surface.createElement tag).2, { p.report with created := p.report.created + 1 }⟩
      (p.surface.createElement tag).1 children
    refine ⟨Worked.trans (.createElement _ tag .refl) (hopened.trans hworked), ⟨rfl, hhandled⟩, ?_, htexts⟩
    rw [create, Tree.detached, Tree.detached]
    exact congrArg (fun ts => Tree.element tag attributes ts none) hdetached

theorem workedAll_createChildren (p : Patch) (q : NodeId) (ts : List Tree) :
    p.surface.Worked (p.createChildren q ts).2.surface ∧ Tree.HandledAll (p.createChildren q ts).1 ∧
      Tree.detachedList (p.createChildren q ts).1 = Tree.detachedList ts ∧
      ∀ x ∈ Tree.textHandlesList (p.createChildren q ts).1, (p.createChildren q ts).2.surface.IsText x := by
  cases ts with
  | nil => exact ⟨.refl, trivial, rfl, fun x hx => absurd hx List.not_mem_nil⟩
  | cons t ts =>
    obtain ⟨hfirst, hhandled, hdetached, htexts⟩ := worked_create p t
    obtain ⟨hrest, hhandled', hdetached', htexts'⟩ := workedAll_createChildren
      ((p.create t).2.2.onSurface fun s => s.appendChild q (p.create t).1) q ts
    have hgoes := Worked.trans (.appendChild _ q (p.create t).1 .refl) hrest
    refine ⟨hfirst.trans hgoes, ⟨hhandled, hhandled'⟩, ?_, fun x hx => ?_⟩
    · rw [createChildren, Tree.detachedList, Tree.detachedList]
      exact congr (congrArg List.cons hdetached) hdetached'
    · rcases List.mem_append.1 hx with hx | hx
      · exact hgoes.keepsTexts x (htexts x hx)
      · exact htexts' x hx

end

/-- A first paint that succeeds was done by operations of the surface; it records a node for every node
of the tree, and text nodes for its texts. -/
theorem worked_mount (p : Patch) {target : NodeId} (t : Tree) (h : (p.mount target t).error = none) :
    p.surface.Worked (p.mount target t).patch.surface ∧ (p.mount target t).tree.Handled ∧
      (p.mount target t).tree.detached = t.detached ∧
      ∀ x ∈ (p.mount target t).tree.textHandles, (p.mount target t).patch.surface.IsText x := by
  unfold mount at h ⊢
  split at h
  · cases h
  · next parent hparent =>
    obtain ⟨hcreated, hhandled, hdetached, htexts⟩ := worked_create p t
    have hplaced : (p.create t).2.2.surface.Worked
        (((p.create t).2.2.surface.insertBefore parent (p.create t).1
          (p.surface.nextSibling? target)).removeChild parent target) :=
      .removeChild _ _ _ (.insertBefore _ _ _ _ .refl)
    exact ⟨hcreated.trans hplaced, hhandled, hdetached, fun x hx => hplaced.keepsTexts x (htexts x hx)⟩

end Patch

end LiveMarkup
