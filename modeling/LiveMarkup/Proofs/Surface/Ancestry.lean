import Mathlib.Logic.Relation
import LiveMarkup.Proofs.Surface.Calls

/-!
# Nodes above one another

A surface is a forest as long as no request puts a node under itself, or the document under anything.
No other request can tie a knot into its links.

* `Surface.Above`: the nodes met on the way up from a node.
* `Surface.Forest`: no node is above itself, and nothing is above the document.
* `Call.Knots`: a request that moves a node under a node below it, or moves the document.
* `Surface.Untangled`: requests of which none does so.
* **`Forest.attach_iff`**, **`Forest.perform_iff`**: when a move, and a request, leaves a forest.
* **`Forest.untangled_iff`**: when there is a forest all along.
-/

namespace LiveMarkup.Surface

open Relation

variable {s s' : Surface} {x y p c id : NodeId} {r : Option NodeId}

/-- A node is the parent of another. -/
def IsParent (s : Surface) (p c : NodeId) : Prop := s.parent? c = some p

instance (s : Surface) (p c : NodeId) : Decidable (s.IsParent p c) :=
  inferInstanceAs (Decidable (_ = _))

/-- A node is met on the way up from another. -/
def Above (s : Surface) : NodeId → NodeId → Prop := TransGen s.IsParent

/-- No way up comes back to where it began, and nothing is above the document. -/
structure Forest (s : Surface) : Prop where
  acyclic : ∀ x, ¬ s.Above x x
  root_parent : s.parent? root = none

/-- A request that moves a node under a node below it, or moves the document. -/
def Call.Knots (s : Surface) : Call → Prop
  | .appendChild parent id | .insertBefore parent id _ =>
    s.Movable parent id ∧ (id = root ∨ s.Above id parent)
  | _ => False

/-- Requests of which none, when its turn comes, moves a node under a node below it or moves the
document. -/
def Untangled (s : Surface) : List Call → Prop
  | [] => True
  | call :: calls => ¬ call.Knots s ∧ (s.perform call).Untangled calls

/-! ## Fewer links -/

/-- Links that were there before make a forest of a forest. -/
theorem Forest.of_links (h : s.Forest) (hsub : ∀ p c, s'.parent? c = some p → s.parent? c = some p) :
    s'.Forest where
  acyclic x hx := h.acyclic x (TransGen.mono hsub x x hx)
  root_parent := by
    rw [Option.eq_none_iff_forall_ne_some]
    intro p hp
    exact Option.some_ne_none p ((hsub p root hp).symm.trans h.root_parent)

theorem forest_congr (hp : ∀ x, s'.parent? x = s.parent? x) : s'.Forest ↔ s.Forest :=
  ⟨fun h => h.of_links fun _ c hc => (hp c).trans hc, fun h => h.of_links fun _ c hc => (hp c).symm.trans hc⟩

@[simp] theorem forest_record (op : Op) : (s.record op).Forest ↔ s.Forest := forest_congr fun _ => rfl

@[simp] theorem forest_alloc (k : Content) : (s.alloc k).2.Forest ↔ s.Forest := forest_congr (by simp)

theorem Forest.empty : Surface.empty.Forest where
  acyclic x hx := by
    obtain ⟨p, -, hp⟩ := TransGen.tail'_iff.1 hx
    have hx : x = root := congrArg NodeId.mk (Nat.lt_one_iff.1 (lt_of_parent? hp))
    subst hx
    exact nomatch hp
  root_parent := rfl

theorem Forest.detach (h : s.Forest) (id : NodeId) : (s.detach id).Forest :=
  h.of_links fun p c hc => by
    rw [parent?_detach] at hc
    split at hc
    · contradiction
    · exact hc

theorem Forest.foldl_detach (h : s.Forest) (ids : List NodeId) : (ids.foldl Surface.detach s).Forest := by
  induction ids generalizing s with
  | nil => exact h
  | cons id ids ih => exact ih (h.detach id)

/-! ## Moving a node -/

theorem isParent_attach (hm : s.Movable p id) (r : Option NodeId) :
    (s.attach p id r).IsParent x y ↔ if y = id then x = p else s.IsParent x y := by
  unfold IsParent
  rw [parent?_attach hm.1 hm.2.1 hm.2.2]
  split
  · rw [Option.some.injEq, eq_comm]
  · rfl

/-- A way up after a move was there before, or goes by the node that is moved. -/
theorem above_attach (hm : s.Movable p id) (h : (s.attach p id r).Above x y) :
    s.Above x y ∨ ReflTransGen s.IsParent x p ∧ ReflTransGen s.IsParent id y := by
  induction h with
  | single hxy =>
    rw [isParent_attach hm] at hxy
    split at hxy
    · next hy => exact .inr ⟨hxy ▸ .refl, hy ▸ .refl⟩
    · exact .inl (.single hxy)
  | tail _ hyz ih =>
    rw [isParent_attach hm] at hyz
    split at hyz
    · next hz =>
      subst hyz
      exact .inr ⟨ih.elim (·.to_reflTransGen) And.left, hz ▸ .refl⟩
    · exact ih.imp (·.tail hyz) fun h => ⟨h.1, h.2.tail hyz⟩

/-- The nodes below one that is moved are below it afterwards. -/
theorem Forest.above_attach_of_above (h : s.Forest) (hm : s.Movable p id) (hx : s.Above id x) :
    (s.attach p id r).Above id x := by
  -- the link to a node that is below the moved one is not the link that the move replaces
  have hlink : ∀ {y z}, s.Above id z → s.IsParent y z → (s.attach p id r).IsParent y z := by
    intro y z hz hyz
    rw [isParent_attach hm, if_neg]
    · exact hyz
    · rintro rfl
      exact h.acyclic _ hz
  induction hx with
  | single hy => exact .single (hlink (.single hy) hy)
  | tail hy hyz ih => exact ih.tail (hlink (hy.tail hyz) hyz)

/-- **A move leaves a forest** unless the node goes under a node below it, or is the document. -/
theorem Forest.attach_iff (h : s.Forest) (hm : s.Movable p id) :
    (s.attach p id r).Forest ↔ ¬ (id = root ∨ s.Above id p) := by
  constructor
  · rintro h' (rfl | hup)
    · have hroot := h'.root_parent
      rw [parent?_attach hm.1 hm.2.1 hm.2.2, if_pos rfl] at hroot
      exact Option.some_ne_none p hroot
    · exact h'.acyclic id ((h.above_attach_of_above hm hup).tail ((isParent_attach hm r).2 (by simp)))
  · intro hfree
    obtain ⟨hroot, hup⟩ := not_or.1 hfree
    refine ⟨fun x hx => ?_, ?_⟩
    · rcases above_attach hm hx with hx | ⟨hxp, hidx⟩
      · exact h.acyclic x hx
      · -- the way from the node to its new parent was there before the move
        rcases reflTransGen_iff_eq_or_transGen.1 (hidx.trans hxp) with he | hup'
        · exact hm.2.2 he
        · exact hup hup'
    · rw [parent?_attach hm.1 hm.2.1 hm.2.2, if_neg (Ne.symm hroot)]
      exact h.root_parent

/-- A new node is above nothing, so that it can be put anywhere. -/
theorem Forest.adopt (h : s.Forest) (hs : s.Linked) (hroot : root.index < s.allocated) (p : NodeId)
    (k : Content) : ((s.alloc k).2.attach p ⟨s.allocated⟩ none).Forest := by
  have hnew : (s.alloc k).2.Forest := (forest_alloc k).2 h
  by_cases hm : (s.alloc k).2.Movable p ⟨s.allocated⟩
  · refine (hnew.attach_iff hm).2 (not_or.2 ⟨?_, fun hup => ?_⟩)
    · exact fun he => Nat.lt_irrefl _ (congrArg NodeId.index he ▸ hroot)
    · obtain ⟨c, hc, -⟩ := TransGen.head'_iff.1 hup
      have hchild : s.parent? c = some ⟨s.allocated⟩ := (parent?_alloc s k c).symm.trans hc
      exact Nat.lt_irrefl _ (lt_of_mem_children (hs.mem_children_iff.2 hchild))
  · rwa [attach_of_not_movable hm]

/-- A request to move a node leaves a forest unless it ties a knot. -/
theorem Forest.move_iff (h : s.Forest) :
    (s.attach p id r).Forest ↔ ¬ (s.Movable p id ∧ (id = root ∨ s.Above id p)) := by
  by_cases hm : s.Movable p id
  · rw [h.attach_iff hm, and_iff_right hm]
  · rw [attach_of_not_movable hm]
    exact iff_of_true h fun hk => hm hk.1

/-! ## Requests -/

/-- What every surface has: links that agree, and a document. -/
structure Rooted (s : Surface) : Prop where
  linked : s.Linked
  root_lt : root.index < s.allocated

theorem Rooted.perform (h : s.Rooted) (call : Call) : (s.perform call).Rooted :=
  ⟨h.linked.perform call, Nat.lt_of_lt_of_le h.root_lt (s.spares_perform call).allocated_le⟩

theorem Rooted.adopt (h : s.Rooted) (p : NodeId) (k : Content) :
    ((s.alloc k).2.attach p ⟨s.allocated⟩ none).Rooted :=
  ⟨(h.linked.alloc k).move p _ none, by simpa using Nat.lt_succ_of_lt h.root_lt⟩

theorem Rooted.performAll (h : s.Rooted) (calls : List Call) : (s.performAll calls).Rooted :=
  performAll_preserves (fun _ call h => h.perform call) h calls

/-- What placing a new node preserves holds of a forest that grows by loading. -/
theorem Forest.grown (h : s.Rooted ∧ s.Forest) (p : NodeId) (k : Content) :
    ((s.alloc k).2.attach p ⟨s.allocated⟩ none).Rooted ∧
      ((s.alloc k).2.attach p ⟨s.allocated⟩ none).Forest :=
  ⟨h.1.adopt p k, h.2.adopt h.1.linked h.1.root_lt p k⟩

theorem Forest.load (h : s.Forest) (hs : s.Rooted) (parent : NodeId) (source : Source) :
    (s.load parent source).2.Forest :=
  (load_preserves (P := fun s => s.Rooted ∧ s.Forest) (fun _ p k hs => Forest.grown hs p k) ⟨hs, h⟩
    parent source).2

theorem Initial.rooted_forest (h : s.Initial) : s.Rooted ∧ s.Forest :=
  h.of_load (P := fun s => s.Rooted ∧ s.Forest) (fun _ p k hs => Forest.grown hs p k)
    ⟨⟨.empty, Nat.one_pos⟩, .empty⟩

/-- **A request leaves a forest** unless it ties a knot. -/
theorem Forest.perform_iff (h : s.Forest) (hs : s.Rooted) (call : Call) :
    (s.perform call).Forest ↔ ¬ call.Knots s := by
  cases call with
  | appendChild parent child => exact (forest_record _).trans h.move_iff
  | insertBefore parent id reference => exact (forest_record _).trans h.move_iff
  | createElement tag | createText text =>
    exact iff_of_true ((forest_record _).2 ((forest_alloc _).2 h)) not_false
  | setAttribute id name value =>
    refine iff_of_true ?_ not_false
    simp only [Surface.perform, setAttribute]
    split
    · exact (forest_congr fun x => by simp).2 h
    · exact h
  | removeChild parent child =>
    refine iff_of_true ?_ not_false
    simp only [Surface.perform, removeChild]
    split
    · exact (forest_record _).2 (h.detach child)
    · exact h
  | setText id text =>
    refine iff_of_true ?_ not_false
    simp only [Surface.perform, setText]
    split
    · exact (forest_congr fun x => by simp).2 h
    · have hcleared := h.foldl_detach (s.children id)
      split
      · exact (forest_record _).2 hcleared
      · have hspares : s.Spares (s.children id) none ((s.children id).foldl Surface.detach s) :=
          .foldl_detach s (s.children id)
        exact (forest_record _).2 (hcleared.adopt (hs.linked.foldl_detach _)
          (Nat.lt_of_lt_of_le hs.root_lt hspares.allocated_le) id _)
    · exact h
  | load parent source => exact iff_of_true (h.load hs parent source) not_false

/-- **There is a forest all along**, if and only if no request moves a node under a node below it or moves
the document. -/
theorem Forest.untangled_iff (h : s.Forest) (hs : s.Rooted) (calls : List Call) :
    s.Untangled calls ↔ ∀ before, before <+: calls → (s.performAll before).Forest := by
  induction calls generalizing s with
  | nil =>
    simp only [Untangled, List.prefix_nil, forall_eq, true_iff]
    exact h
  | cons call calls ih =>
    have hstep := h.perform_iff hs call
    constructor
    · rintro ⟨hcall, hcalls⟩ before hbefore
      rcases List.prefix_cons_iff.1 hbefore with rfl | ⟨rest, rfl, hrest⟩
      · exact h
      · exact (ih (hstep.2 hcall) (hs.perform call)).1 hcalls rest hrest
    · intro hall
      have hfirst : (s.perform call).Forest := hall [call] ⟨calls, rfl⟩
      refine ⟨hstep.1 hfirst, (ih hfirst (hs.perform call)).2 fun before hbefore => ?_⟩
      exact hall (call :: before) (List.prefix_cons_iff.2 (.inr ⟨before, rfl, hbefore⟩))

end LiveMarkup.Surface
