import Mathlib.Data.List.Forall2
import Mathlib.Data.List.Perm.Subperm
import LiveMarkup.Proofs.Table
import LiveMarkup.Tree.Basic

/-!
# Equality of trees

Equality compares two trees from the root down, and their attributes by number and by looking up those of
one side on the other. It comes to this: the same places have nodes, and the nodes at each place have the same
tag and the same value under each name, or the same text.

* `Tree.at?`, `Tree.modifyAt`: the node at the end of a way down, and the tree with that node changed.
* `Tree.Alike`: trees with the same labels at the same places.
* **`Attributes.same_iff`**: equal attributes have the same value under each name.
* **`Tree.same_iff`**: equal trees are alike.
* `Tree.Retouched`, **`Tree.Retouched.alike`**: changes to handles and to the order of attributes.
* **`Tree.same_equivalence`**: the laws of equality.
-/

namespace LiveMarkup

/-! ## Attributes -/

/-- **Equal attributes have the same value under each name.** The comparison looks one way only; the other way
follows because the names of a table are distinct and there are equally many on both sides. -/
theorem Attributes.same_iff {a b : Attributes} : a.same b = true ↔ a.find? = b.find? := by
  rw [← Table.perm_iff, same, Bool.and_eq_true, beq_iff_eq, List.all_eq_true]
  constructor
  · rintro ⟨hsize, hall⟩
    -- As many distinct entries as `b` has, all of them in `b`: these are all that `b` has.
    have hsub : a.entries ⊆ b.entries := fun e he =>
      Table.find?_eq_some_iff.1 (beq_iff_eq.1 (hall e he))
    exact (List.subperm_of_subset a.nodup_entries hsub).perm_of_length_le (Nat.le_of_eq hsize.symm)
  · intro h
    exact ⟨h.length_eq, fun e he => beq_iff_eq.2 (Table.find?_eq_some_iff.2 (h.subset he))⟩

namespace Tree

variable {t u w : Tree} {ts us : List Tree} {path : List Nat}

/-! ## Places -/

/-- The node at the end of a way down, which says at each node which of its children comes next. -/
def at? (t : Tree) : List Nat → Option Tree
  | [] => some t
  | i :: path => t.children[i]?.bind fun c => c.at? path

/-- The tree with the node at the end of a way down changed, if there is one. -/
def modifyAt (f : Tree → Tree) : List Nat → Tree → Tree
  | [], t => f t
  | i :: path, t => t.withChildren (t.children.modify i (modifyAt f path))

/-- What a node says without its children: its tag and the value under each name, or its text. -/
inductive Label where
  | element (tag : String) (value? : String → Option String)
  | text (content : String)

def label : Tree → Label
  | element tag attributes _ _ => .element tag attributes.find?
  | text content _ => .text content

/-- The same places have nodes, and the nodes at each place have the same label. -/
def Alike (t u : Tree) : Prop := ∀ path, (t.at? path).map label = (u.at? path).map label

theorem Alike.refl (t : Tree) : t.Alike t := fun _ => rfl

theorem Alike.symm (h : t.Alike u) : u.Alike t := fun path => (h path).symm

theorem Alike.trans (h : t.Alike u) (h' : u.Alike w) : t.Alike w := fun path =>
  (h path).trans (h' path)

/-- Trees are alike if their roots have the same label and their children are alike one by one. -/
theorem alike_iff : t.Alike u ↔ t.label = u.label ∧ List.Forall₂ Alike t.children u.children := by
  constructor
  · intro h
    have hlabels : t.children.map label = u.children.map label := by
      refine List.ext_getElem? fun i => ?_
      simpa [at?, Option.map_bind, Function.comp_def] using h [i]
    refine ⟨Option.some.inj (h []), List.forall₂_iff_get.2 ⟨?_, fun i ht hu path => ?_⟩⟩
    · simpa using congrArg List.length hlabels
    · have hbelow := h (i :: path)
      rwa [at?, at?, List.getElem?_eq_getElem ht, List.getElem?_eq_getElem hu] at hbelow
  · rintro ⟨hlabel, hchildren⟩ path
    cases path with
    | nil => exact congrArg some hlabel
    | cons i path =>
      obtain ⟨hlength, hget⟩ := List.forall₂_iff_get.1 hchildren
      rw [at?, at?]
      by_cases hi : i < t.children.length
      · rw [List.getElem?_eq_getElem hi, List.getElem?_eq_getElem (hlength ▸ hi)]
        exact hget i hi (hlength ▸ hi) path
      · rw [List.getElem?_eq_none (Nat.le_of_not_lt hi),
          List.getElem?_eq_none (hlength ▸ Nat.le_of_not_lt hi)]

theorem alike_of_eq (hlabel : t.label = u.label) (hchildren : t.children = u.children) : t.Alike u :=
  alike_iff.2 ⟨hlabel, hchildren ▸ List.forall₂_same.2 fun c _ => .refl c⟩

/-! ## Equality -/

mutual

/-- **Equal trees are alike**, and only these. -/
theorem same_iff (t u : Tree) : t.same u = true ↔ t.Alike u := by
  rw [alike_iff]
  match t, u with
  | element tag attributes ts _, element tag' attributes' us _ =>
    rw [same, Bool.and_eq_true, Bool.and_eq_true, beq_iff_eq, Attributes.same_iff, sameList_iff ts us,
      label, label, Label.element.injEq]
    rfl
  | text content _, text content' _ =>
    rw [same, beq_iff_eq, label, label, Label.text.injEq]
    exact (and_iff_left .nil).symm
  | element .., text .. => exact iff_of_false Bool.false_ne_true fun h => nomatch h.1
  | text .., element .. => exact iff_of_false Bool.false_ne_true fun h => nomatch h.1

theorem sameList_iff (ts us : List Tree) : sameList ts us = true ↔ List.Forall₂ Alike ts us := by
  match ts, us with
  | [], [] => exact iff_of_true rfl .nil
  | t :: ts, u :: us => rw [sameList, Bool.and_eq_true, same_iff t u, sameList_iff ts us, List.forall₂_cons]
  | [], _ :: _ => exact iff_of_false Bool.false_ne_true nofun
  | _ :: _, [] => exact iff_of_false Bool.false_ne_true nofun

end

theorem same_congr {t' u' : Tree} (ht : t'.Alike t) (hu : u'.Alike u) : t'.same u' = t.same u := by
  rw [Bool.eq_iff_iff, same_iff, same_iff]
  exact ⟨fun h => (ht.symm.trans h).trans hu, fun h => (ht.trans h).trans hu.symm⟩

mutual

theorem Alike.count_eq {t u : Tree} (h : t.Alike u) : t.count = u.count := by
  obtain ⟨hlabel, hchildren⟩ := alike_iff.1 h
  match t, u with
  | element _ _ ts _, element _ _ us _ =>
    have hbelow : countList ts = countList us := countList_eq_of_alike hchildren
    rw [count, count, hbelow]
  | text .., text .. => rfl
  | element .., text .. => cases hlabel
  | text .., element .. => cases hlabel

theorem countList_eq_of_alike {ts us : List Tree} (h : List.Forall₂ Alike ts us) :
    countList ts = countList us := by
  match ts, us with
  | [], [] => rfl
  | t :: ts, u :: us =>
    obtain ⟨hhead, htail⟩ := List.forall₂_cons.1 h
    rw [countList, countList, hhead.count_eq, countList_eq_of_alike htail]

end

/-! ## Changes that equality does not see -/

/-- A change to handles or to the order of attributes: a handle remembered at any node, all handles forgotten,
or the attributes of any element in another order. -/
inductive Retouched : Tree → Tree → Prop where
  | handle (t : Tree) (path : List Nat) (id : NodeId) : Retouched t (t.modifyAt (withHandle id) path)
  | detached (t : Tree) : Retouched t t.detached
  | reordered (t : Tree) (path : List Nat) (tag : String) (attributes attributes' : Attributes)
      (children : List Tree) (handle : Option NodeId)
      (element : t.at? path = some (.element tag attributes children handle))
      (perm : attributes'.entries.Perm attributes.entries) :
      Retouched t (t.modifyAt (fun _ => .element tag attributes' children handle) path)

theorem children_withChildren (h : ts.length = t.children.length) : (t.withChildren ts).children = ts := by
  cases t with
  | element tag attributes children handle => rfl
  | text content handle => exact (List.length_eq_zero_iff.1 h).symm

theorem label_withChildren (t : Tree) (ts : List Tree) : (t.withChildren ts).label = t.label := by
  cases t <;> rfl

/-- A node may be changed into one that is alike without the tree ceasing to be alike. -/
theorem alike_modifyAt {f : Tree → Tree} (h : ∀ u, t.at? path = some u → (f u).Alike u) :
    (t.modifyAt f path).Alike t := by
  induction path generalizing t with
  | nil => exact h t rfl
  | cons i path ih =>
    have hlength : (t.children.modify i (modifyAt f path)).length = t.children.length :=
      List.length_modify ..
    refine alike_iff.2 ⟨label_withChildren t _, ?_⟩
    rw [modifyAt, children_withChildren hlength]
    refine List.forall₂_iff_get.2 ⟨hlength, fun j hj hj' => ?_⟩
    rw [List.get_eq_getElem, List.getElem_modify]
    -- The child on the way is alike by the induction; the others are as they were.
    split
    · next hij =>
      subst hij
      exact ih fun u hu => h u (by rw [at?, List.getElem?_eq_getElem hj']; exact hu)
    · exact .refl _

theorem alike_withHandle (id : NodeId) (t : Tree) : (t.withHandle id).Alike t := by
  cases t <;> exact alike_of_eq rfl rfl

theorem children_detached (t : Tree) : t.detached.children = t.children.map detached := by
  cases t with
  | element tag attributes children handle => exact detachedList_eq_map children
  | text content handle => rfl

theorem at?_detached (t : Tree) (path : List Nat) : t.detached.at? path = (t.at? path).map detached := by
  induction path generalizing t with
  | nil => rfl
  | cons i path ih =>
    rw [at?, at?, children_detached, List.getElem?_map]
    cases t.children[i]? with
    | none => rfl
    | some c => exact ih c

theorem label_detached (t : Tree) : t.detached.label = t.label := by
  cases t <;> rfl

theorem alike_detached (t : Tree) : t.detached.Alike t := fun path => by
  rw [at?_detached, Option.map_map]
  exact congrArg (Option.map · _) (funext label_detached)

/-- **A change to handles or to the order of attributes leaves trees alike.** -/
theorem Retouched.alike (h : t.Retouched u) : u.Alike t := by
  cases h with
  | handle path id => exact alike_modifyAt fun u _ => alike_withHandle id u
  | detached => exact alike_detached t
  | reordered path tag attributes attributes' children handle element perm =>
    refine alike_modifyAt fun u hu => ?_
    obtain rfl := Option.some.inj (element.symm.trans hu)
    exact alike_of_eq (congrArg (Label.element tag) (Table.perm_iff.1 perm)) rfl

/-! ## The laws of equality -/

/-- **The laws of equality.** It is an equivalence relation. It does not see handles or the order of
attributes. Equal trees have equally many nodes, and they are the trees which have nodes at the same places,
with the same tag and the same value under each attribute name, or the same text. -/
theorem same_equivalence :
    Equivalence (fun t u : Tree => t.same u = true) ∧
    (∀ t t' u : Tree, t.Retouched t' → t'.same u = t.same u ∧ u.same t' = u.same t) ∧
    (∀ t u : Tree, t.same u = true → t.count = u.count) ∧
    ∀ t u : Tree, t.same u = true ↔ ∀ path, (t.at? path).map label = (u.at? path).map label := by
  refine ⟨⟨fun t => ?_, fun {t u} h => ?_, fun {t u w} h h' => ?_⟩, fun t t' u h => ?_, fun t u h => ?_, same_iff⟩
  · exact (same_iff t t).2 (.refl t)
  · exact (same_iff u t).2 ((same_iff t u).1 h).symm
  · exact (same_iff t w).2 (((same_iff t u).1 h).trans ((same_iff u w).1 h'))
  · exact ⟨same_congr h.alike (.refl u), same_congr (.refl u) h.alike⟩
  · exact ((same_iff t u).1 h).count_eq

/-- Below the second child of a paragraph two attributes change places. -/
theorem same_equivalence_reordered :
    let link (attributes : Attributes) : Tree := .element "a" attributes [.text "more" none] (some ⟨4⟩)
    let paragraph (attributes : Attributes) : Tree :=
      .element "p" .empty [.text "see " (some ⟨2⟩), link attributes] (some ⟨1⟩)
    let t := paragraph (Table.ofList [("href", "#x"), ("id", "y")])
    let u := paragraph (Table.ofList [("id", "y"), ("href", "#x")])
    t.Retouched u ∧ u.same t = t.same t ∧ u.same t = true ∧ u.count = t.count := by
  intro link paragraph t u
  have hreordered : t.Retouched u := .reordered t [1] "a" (Table.ofList [("href", "#x"), ("id", "y")])
    (Table.ofList [("id", "y"), ("href", "#x")]) [.text "more" none] (some ⟨4⟩) rfl (by decide)
  obtain ⟨hequivalence, hretouched, hcount, -⟩ := same_equivalence
  have hsame : u.same t = t.same t := (hretouched t u t hreordered).1
  have hequal : u.same t = true := hsame.trans (hequivalence.refl t)
  exact ⟨hreordered, hsame, hequal, hcount u t hequal⟩

end Tree

end LiveMarkup
