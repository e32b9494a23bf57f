import Mathlib.Data.Finset.Card
import LiveMarkup.Proofs.Surface.Ancestry
import LiveMarkup.Surface.Select

/-!
# Reading a forest

Reading follows the links of a node without a look at where it has been. On a forest it comes to an end
within as many steps as there are nodes, so that it is no matter how many steps are allowed; a knot in the
links leads it round and round.

* `Surface.reach`: the nodes to which a relation leads, the measure of reading along it.
* `Surface.Suffices`: more steps than so many give the same.
* **`suffices_of_acyclic`**: what follows an acyclic relation needs no more steps than there are nodes.
* `Surface.Readable`: all reading comes to an end.
* **`Forest.readable`**: so it does on a forest.
* **`Initial.forest`**: when surfaces are forests, and that they can be read then.
-/

namespace LiveMarkup.Surface

open Relation

variable {s : Surface} {x y p c : NodeId}

/-! ## Following a relation -/

section Following

variable {n : Nat} {R : NodeId → NodeId → Prop} {α : Type}

open scoped Classical in
/-- The numbers of the nodes, of so many, to which a relation leads. -/
noncomputable def reach (n : Nat) (R : NodeId → NodeId → Prop) (x : NodeId) : Finset Nat :=
  (Finset.range n).filter fun i => ReflTransGen R x ⟨i⟩

theorem mem_reach {i : Nat} : i ∈ reach n R x ↔ i < n ∧ ReflTransGen R x ⟨i⟩ := by
  simp [reach]

theorem card_reach_le (n : Nat) (R : NodeId → NodeId → Prop) (x : NodeId) : (reach n R x).card ≤ n := by
  have hsub : reach n R x ⊆ Finset.range n := fun i hi => Finset.mem_range.2 (mem_reach.1 hi).1
  exact (Finset.card_le_card hsub).trans_eq (Finset.card_range n)

/-- An acyclic relation leads to fewer nodes from further on. -/
theorem card_reach_lt (acyclic : ∀ x, ¬ TransGen R x x) (hx : x.index < n) (h : R x y) :
    (reach n R y).card < (reach n R x).card := by
  refine Finset.card_lt_card ((Finset.ssubset_iff_of_subset fun i hi => ?_).2 ⟨x.index, ?_, ?_⟩)
  · obtain ⟨hlt, hi⟩ := mem_reach.1 hi
    exact mem_reach.2 ⟨hlt, hi.head h⟩
  · exact mem_reach.2 ⟨hx, .refl⟩
  · exact fun hmem => acyclic x (TransGen.head' h (mem_reach.1 hmem).2)

/-- So many steps are enough: more of them give the same. -/
def Suffices (n : Nat) (f : Nat → NodeId → α) : Prop := ∀ depth x, n ≤ depth → f depth x = f n x

/-- **What follows an acyclic relation needs no more steps than there are nodes.** With a step more it
depends on what the next nodes give with the steps that remain, and where there is no node it is always the
same. -/
theorem suffices_of_acyclic {f : Nat → NodeId → α} (acyclic : ∀ x, ¬ TransGen R x x)
    (outside : ∀ x, n ≤ x.index → ∀ depth, f depth x = f 0 x)
    (step : ∀ x depth depth', (∀ y, R x y → f depth y = f depth' y) →
      f (depth + 1) x = f (depth' + 1) x) : Suffices n f := by
  suffices ∀ depth x depth', (reach n R x).card ≤ depth → (reach n R x).card ≤ depth' →
      f depth x = f depth' x from
    fun depth x hle => this depth x n ((card_reach_le n R x).trans hle) (card_reach_le n R x)
  intro depth
  induction depth with
  | zero =>
    intro x depth' h _
    refine (outside x (Nat.le_of_not_lt fun hx => ?_) depth').symm
    rw [Nat.le_zero, Finset.card_eq_zero] at h
    exact Finset.notMem_empty x.index (h ▸ mem_reach.2 ⟨hx, .refl⟩)
  | succ depth ih =>
    intro x depth' h h'
    rcases Nat.lt_or_ge x.index n with hx | hx
    · have hpos : 0 < (reach n R x).card := Finset.card_pos.2 ⟨x.index, mem_reach.2 ⟨hx, .refl⟩⟩
      obtain ⟨rest, rfl⟩ := Nat.exists_eq_add_one.2 (hpos.trans_le h')
      refine step x depth rest fun y hy => ?_
      have hfewer := card_reach_lt acyclic hx hy
      exact ih y rest (Nat.le_of_lt_succ (hfewer.trans_le h)) (Nat.le_of_lt_succ (hfewer.trans_le h'))
    · exact (outside x hx _).trans (outside x hx depth').symm

/-- No way along an acyclic relation goes on for ever. -/
theorem wellFounded_of_acyclic (acyclic : ∀ x, ¬ TransGen R x x) (inside : ∀ x y, R x y → x.index < n) :
    WellFounded fun y x => R x y :=
  Subrelation.wf (fun {_ x} h => card_reach_lt acyclic (inside x _ h) h)
    (measure fun x => (reach n R x).card).wf

end Following

/-! ## Reading -/

/-- All reading comes to an end: the links can be followed only so far, as many steps as there are nodes
are enough for all that is read, and a node is found to be linked to the document if and only if the
document's children lead to it. -/
structure Readable (s : Surface) : Prop where
  down : WellFounded fun c p => c ∈ s.children p
  up : WellFounded fun p c => s.parent? c = some p
  climbs : Suffices s.allocated s.climbs
  writeHtml : Suffices s.allocated s.writeHtml
  readText : Suffices s.allocated s.readText
  readSource : Suffices s.allocated s.readSource
  find : ∀ test, Suffices s.allocated (s.find test)
  isAttached_iff : ∀ x, s.isAttached x ↔ ReflTransGen (fun p c => c ∈ s.children p) root x

theorem children_of_node? {n : SurfaceNode} (h : s.node? x = some n) : s.children x = n.children := by
  rw [children_eq_getD, h]
  rfl

/-- What is found on the way up from a node leads down to it. -/
theorem reaches_of_climbs (hs : s.Linked) {depth : Nat} (h : s.climbs depth x) :
    ReflTransGen (fun p c => c ∈ s.children p) root x := by
  induction depth generalizing x with
  | zero => exact beq_iff_eq.1 h ▸ .refl
  | succ depth ih =>
    rw [Surface.climbs, Bool.or_eq_true, beq_iff_eq] at h
    rcases h with rfl | h
    · exact .refl
    · cases hp : s.parent? x with
      | none => simp [hp] at h
      | some p =>
        rw [hp] at h
        exact (ih h).tail (hs.mem_children_iff.2 hp)

section Readers

variable (h : s.Forest) (hs : s.Linked)

include h

theorem Forest.suffices_climbs : Suffices s.allocated s.climbs := by
  refine suffices_of_acyclic (R := fun c p => s.IsParent p c) (fun x hx => ?_) (fun x hx depth => ?_)
    fun x depth depth' hup => ?_
  · exact h.acyclic x (transGen_swap.1 hx)
  · cases depth with
    | zero => rfl
    | succ depth => simp only [Surface.climbs, parent?_eq_none hx, Bool.or_false]
  · rw [Surface.climbs, Surface.climbs]
    cases hp : s.parent? x with
    | none => rfl
    | some p => simp only [hup p hp]

include hs

/-- What is read of a node and of what its children give needs no more steps than there are nodes. -/
theorem Forest.suffices_of_children {α : Type} {f : Nat → NodeId → α}
    (outside : ∀ x, s.node? x = none → ∀ depth, f depth x = f 0 x)
    (step : ∀ x n depth depth', s.node? x = some n → (∀ c ∈ n.children, f depth c = f depth' c) →
      f (depth + 1) x = f (depth' + 1) x) : Suffices s.allocated f := by
  refine suffices_of_acyclic h.acyclic (fun x hx => outside x (node?_eq_none hx))
    fun x depth depth' hbelow => ?_
  cases hn : s.node? x with
  | none => rw [outside x hn, outside x hn (depth' + 1)]
  | some n =>
    refine step x n depth depth' hn fun c hc => hbelow c (hs.mem_children_iff.1 ?_)
    rwa [children_of_node? hn]

theorem Forest.suffices_writeHtml : Suffices s.allocated s.writeHtml := by
  refine h.suffices_of_children hs (fun x hn depth => ?_) fun x n depth depth' hn hbelow => ?_
  · cases depth with
    | zero => rfl
    | succ depth => simp only [Surface.writeHtml, hn]
  · simp only [Surface.writeHtml, hn, List.flatMap_congr hbelow]

theorem Forest.suffices_readText : Suffices s.allocated s.readText := by
  refine h.suffices_of_children hs (fun x hn depth => ?_) fun x n depth depth' hn hbelow => ?_
  · cases depth with
    | zero => rfl
    | succ depth => simp only [Surface.readText, hn]
  · simp only [Surface.readText, hn, List.filterMap_congr hbelow]

theorem Forest.suffices_readSource : Suffices s.allocated s.readSource := by
  refine h.suffices_of_children hs (fun x hn depth => ?_) fun x n depth depth' hn hbelow => ?_
  · cases depth with
    | zero => rfl
    | succ depth => simp only [Surface.readSource, hn]
  · simp only [Surface.readSource, hn, List.filterMap_congr hbelow]

theorem Forest.suffices_find (test : Content → Bool) : Suffices s.allocated (s.find test) := by
  refine h.suffices_of_children hs (fun x hn depth => ?_) fun x n depth depth' hn hbelow => ?_
  · cases depth with
    | zero => rfl
    | succ depth => simp only [Surface.find, hn]
  · simp only [Surface.find, hn, ← List.head?_filterMap, List.filterMap_congr hbelow]

/-- A node is found to be linked to the document where the document's children lead to it. -/
theorem Forest.isAttached_iff (x : NodeId) :
    s.isAttached x ↔ ReflTransGen (fun p c => c ∈ s.children p) root x := by
  refine ⟨reaches_of_climbs hs, fun hx => ?_⟩
  show s.climbs s.allocated x
  induction hx with
  | refl => cases s.allocated <;> rfl
  | @tail p c _ hc ih =>
    rw [← h.suffices_climbs (s.allocated + 1) c (Nat.le_succ _), Surface.climbs,
      hs.mem_children_iff.1 hc, Bool.or_eq_true]
    exact .inr ih

/-- **Reading a forest comes to an end.** -/
theorem Forest.readable : s.Readable where
  down := by
    have hchild : ∀ p c, s.IsParent p c ↔ c ∈ s.children p := fun p c => hs.mem_children_iff.symm
    simpa only [hchild] using wellFounded_of_acyclic (n := s.allocated) h.acyclic fun p c hc =>
      lt_of_mem_children ((hchild p c).1 hc)
  up := wellFounded_of_acyclic (n := s.allocated) (R := fun c p => s.IsParent p c)
    (fun x hx => h.acyclic x (transGen_swap.1 hx)) fun c p hp => lt_of_parent? hp
  climbs := h.suffices_climbs
  writeHtml := h.suffices_writeHtml hs
  readText := h.suffices_readText hs
  readSource := h.suffices_readSource hs
  find := h.suffices_find hs
  isAttached_iff := h.isAttached_iff hs

end Readers

/-! ## Knots -/

/-- **Surfaces are forests as long as no knot is tied.** From when it is made a surface is a forest all along
if and only if no request moves a node under a node below it or moves the document. While it is one, all
reading comes to an end, and a node is found to be linked to the document if and only if the document's
children lead to it. -/
theorem Initial.forest {s₀ : Surface} (h : s₀.Initial) (calls : List Call) :
    (s₀.Untangled calls ↔ ∀ before, before <+: calls → (s₀.performAll before).Forest) ∧
      ((s₀.performAll calls).Forest → (s₀.performAll calls).Readable) := by
  obtain ⟨hrooted, hforest⟩ := h.rooted_forest
  exact ⟨hforest.untangled_iff hrooted calls, fun hf => hf.readable (hrooted.performAll calls).linked⟩

/-- A node without children can be put anywhere, unless it is the document. -/
theorem Linked.not_knots (hs : s.Linked) {r : Option NodeId} (hleaf : s.children x = []) (hx : x ≠ root) :
    ¬ (Call.insertBefore p x r).Knots s := by
  rintro ⟨-, hroot | habove⟩
  · exact hx hroot
  · obtain ⟨c, hc, -⟩ := TransGen.head'_iff.1 habove
    exact List.not_mem_nil (hleaf ▸ hs.mem_children_iff.2 hc)

/-- An element is put into the document, and another one into it. -/
def nested : List Call :=
  [.createElement "a", .createElement "b", .insertBefore root ⟨1⟩ none, .insertBefore ⟨1⟩ ⟨2⟩ none]

theorem untangled_nested : Surface.empty.Untangled nested := by
  have hmade := (Linked.empty.perform (.createElement "a")).perform (.createElement "b")
  refine ⟨not_false, not_false, hmade.not_knots ?_ ?_, (hmade.perform _).not_knots ?_ ?_, trivial⟩ <;>
    decide

/-- A surface made by such requests can be read. -/
theorem Initial.forest_nested :
    Surface.empty.Initial ∧ Surface.empty.Untangled nested ∧ (Surface.empty.performAll nested).Readable := by
  obtain ⟨hiff, hreadable⟩ := Initial.empty.forest nested
  exact ⟨.empty, untangled_nested, hreadable (hiff.1 untangled_nested nested (List.prefix_refl nested))⟩

/-- Markup around that of an only child is longer. -/
theorem length_writeHtml_lt {tag : String} {attributes : Attributes} {parent : Option NodeId}
    (hn : s.node? x = some ⟨.element tag attributes, parent, [c]⟩) (depth : Nat) :
    (s.writeHtml depth c).length < (s.writeHtml (depth + 1) x).length := by
  simp only [writeHtml, hn, List.flatMap_cons, List.flatMap_nil, List.append_nil, List.isEmpty_cons,
    Bool.false_and, Bool.false_eq_true, if_false, List.length_append, openingHtml, closingHtml,
    List.length_cons]
  omega

/-- Two elements, each put into the other. -/
def ring : List Call :=
  [.createElement "a", .createElement "b", .appendChild ⟨1⟩ ⟨2⟩, .appendChild ⟨2⟩ ⟨1⟩]

/-- The document is put into an element. -/
def buried : List Call := [.createElement "a", .appendChild ⟨1⟩ root]

/-- **Requests can tie a knot.** Two elements can be put into each other. Then each is above itself, and
their markup is as long as the number of steps that are allowed. And the document can be put into an element,
which is its parent then. -/
theorem Initial.not_forest_ring :
    Surface.empty.Initial ∧ (Surface.empty.performAll ring).Above ⟨1⟩ ⟨1⟩ ∧
      (∀ depth, depth ≤ ((Surface.empty.performAll ring).writeHtml depth ⟨1⟩).length) ∧
      (Surface.empty.performAll buried).parent? root = some ⟨1⟩ := by
  have hfirst : (Surface.empty.performAll ring).node? ⟨1⟩ =
      some ⟨.element "a" Table.empty, some ⟨2⟩, [⟨2⟩]⟩ := by decide
  have hsecond : (Surface.empty.performAll ring).node? ⟨2⟩ =
      some ⟨.element "b" Table.empty, some ⟨1⟩, [⟨1⟩]⟩ := by decide
  have hlong : ∀ depth, depth ≤ ((Surface.empty.performAll ring).writeHtml depth ⟨1⟩).length ∧
      depth ≤ ((Surface.empty.performAll ring).writeHtml depth ⟨2⟩).length := by
    intro depth
    induction depth with
    | zero => exact ⟨Nat.zero_le _, Nat.zero_le _⟩
    | succ depth ih =>
      exact ⟨Nat.lt_of_le_of_lt ih.2 (length_writeHtml_lt hfirst depth),
        Nat.lt_of_le_of_lt ih.1 (length_writeHtml_lt hsecond depth)⟩
  have hdown : (Surface.empty.performAll ring).IsParent ⟨1⟩ ⟨2⟩ := by decide
  have hback : (Surface.empty.performAll ring).IsParent ⟨2⟩ ⟨1⟩ := by decide
  exact ⟨.empty, .tail (.single hdown) hback, fun depth => (hlong depth).1, by decide⟩

end LiveMarkup.Surface
