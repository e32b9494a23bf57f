import LiveMarkup.Proofs.Patch.Paint
import LiveMarkup.Proofs.Patch.Texts
import LiveMarkup.Proofs.Surface.Outline
import LiveMarkup.Tree.Compile

/-!
# The outline of a painted document

What is painted in the place of a node that was read from markup can be spelled, whatever its texts are,
and the outline of the document does not depend on them.

* `Tree.Formed`: a tree that can be spelled.
* `Source.Formed.template?`: the template of a node that can be spelled.
* **`Patch.spellable_mount`**: painting such a tree leaves a surface that can be spelled.
* **`Patch.sameOutline_mount`**: trees of the same shape give documents of the same outline.
-/

namespace LiveMarkup

open Markup

/-! ## Trees that can be spelled -/

namespace Tree

mutual

/-- The names in a tree are such as markup can have, and elements that never have children have none. -/
def Formed : Tree → Prop
  | element tag attributes children _ =>
    (Content.element tag attributes).Named ∧ (isVoid tag → children = []) ∧ FormedAll children
  | text .. => True

def FormedAll : List Tree → Prop
  | [] => True
  | t :: ts => t.Formed ∧ FormedAll ts

end

mutual

/-- Whether a tree can be spelled depends on its shape only. -/
theorem formed_of_skeleton {t u : Tree} (h : t.skeleton = u.skeleton) (ht : t.Formed) : u.Formed := by
  cases t with
  | text content handle =>
    cases u with
    | text => trivial
    | element => cases h
  | element tag attributes ts handle =>
    cases u with
    | text => cases h
    | element tag' attributes' us handle' =>
      simp only [skeleton, element.injEq, and_true] at h
      obtain ⟨rfl, rfl, hall⟩ := h
      obtain ⟨hnamed, childless, hts⟩ := ht
      refine ⟨hnamed, fun hv => ?_, formedAll_of_skeleton hall hts⟩
      rw [childless hv] at hall
      cases us with
      | nil => rfl
      | cons => cases hall

theorem formedAll_of_skeleton {ts us : List Tree} (h : skeletonList ts = skeletonList us)
    (hts : FormedAll ts) : FormedAll us := by
  cases ts with
  | nil =>
    cases us with
    | nil => trivial
    | cons => cases h
  | cons t ts =>
    cases us with
    | nil => cases h
    | cons u us =>
      obtain ⟨hhead, htail⟩ := List.cons.inj h
      exact ⟨formed_of_skeleton hhead hts.1, formedAll_of_skeleton htail hts.2⟩

end

end Tree

mutual

/-- The template of a node that can be spelled. -/
theorem Source.Formed.template? {x : Source} (h : x.Formed) {t : Tree} (ht : x.template? = some t) :
    t.Formed := by
  cases x with
  | element name attributes children =>
    obtain rfl := Option.some.inj ht
    cases h with
    | element _ _ _ tag named childless each =>
      refine ⟨⟨tag, fun e he => named e (Table.mem_of_mem_ofList he)⟩, fun hv => ?_,
        formedAll_templates children each⟩
      rw [childless hv, Source.templates]
  | text content =>
    obtain rfl := Option.some.inj ht
    trivial
  | comment content => cases ht

theorem Source.formedAll_templates (xs : List Source) (h : ∀ x ∈ xs, x.Formed) :
    Tree.FormedAll (Source.templates xs) := by
  cases xs with
  | nil => trivial
  | cons x xs =>
    obtain ⟨hx, hxs⟩ := List.forall_mem_cons.1 h
    rw [Source.templates]
    cases ht : x.template? with
    | some t => exact ⟨hx.template? ht, formedAll_templates xs hxs⟩
    | none => exact formedAll_templates xs hxs

end

namespace Surface

variable {s s' : Surface}

/-- A node that is read back from a surface that can be spelled. -/
theorem Spellable.formed_readSource (h : s.Spellable) {depth : Nat} {id : NodeId} {x : Source}
    (hx : s.readSource depth id = some x) : x.Formed := by
  induction depth generalizing id x with
  | zero => cases hx
  | succ depth ih =>
    rw [readSource] at hx
    cases hn : s.node? id with
    | none => rw [hn] at hx; cases hx
    | some n =>
      rw [hn] at hx
      obtain ⟨hnamed, hvoid⟩ := h.of_node? hn
      cases hk : n.content with
      | document => simp [hk] at hx
      | text content =>
        obtain rfl : .text content = x := by simpa [hk] using hx
        exact .text content
      | comment content =>
        obtain rfl : .comment content = x := by simpa [hk] using hx
        rw [hk] at hnamed
        exact .comment content hnamed
      | element tag attributes =>
        obtain rfl : .element tag attributes.entries (n.children.filterMap (s.readSource depth)) = x := by
          simpa [hk] using hx
        rw [hk] at hnamed hvoid
        refine .element tag _ _ hnamed.1 hnamed.2 (fun hv => ?_) fun y hy => ?_
        · rw [hvoid hv]
          rfl
        · obtain ⟨id', -, hy⟩ := List.mem_filterMap.1 hy
          exact ih hy

/-! ## Nodes that show such trees -/

/-- A node can be spelled, and has no children if it never has any. -/
def SpellableAt (s : Surface) (x : NodeId) : Prop :=
  ∀ k, s.content? x = some k → k.Named ∧ (k.isVoid → s.children x = [])

theorem Spellable.at (h : s.Spellable) (x : NodeId) : s.SpellableAt x :=
  fun k hk => ⟨h.named x k hk, h.childless x k hk⟩

theorem spellable_of_at (h : ∀ x, s.SpellableAt x) : s.Spellable :=
  ⟨fun x k hk => (h x k hk).1, fun x k hk => (h x k hk).2⟩

mutual

/-- The nodes that show a tree can be spelled if the tree can. -/
theorem Shows.spellableAt {id : NodeId} {t : Tree} (h : s.Shows exact id t) (ht : t.Formed) :
    ∀ x ∈ t.handles, s.SpellableAt x := by
  cases h with
  | text id content data leaf =>
    intro x hx k hk
    obtain rfl := List.mem_singleton.1 hx
    obtain rfl := Option.some.inj (data.symm.trans hk)
    exact ⟨trivial, nofun⟩
  | element id tag carried attributes ts data fit below =>
    obtain ⟨hnamed, childless, hts⟩ := ht
    obtain rfl : carried = attributes := fit
    intro x hx
    rcases List.mem_cons.1 hx with rfl | hx
    · intro k hk
      obtain rfl := Option.some.inj (data.symm.trans hk)
      refine ⟨hnamed, fun hv => ?_⟩
      rw [childless hv] at below
      generalize s.children x = ids at below
      cases below
      rfl
    · exact below.spellableAt hts x hx

theorem ShowsAll.spellableAt {ids : List NodeId} {ts : List Tree} (h : s.ShowsAll exact ids ts)
    (hts : Tree.FormedAll ts) : ∀ x ∈ Tree.handlesList ts, s.SpellableAt x := by
  cases h with
  | nil => exact fun _ hx => absurd hx List.not_mem_nil
  | cons id ids t ts head tail =>
    intro x hx
    rcases List.mem_append.1 hx with hx | hx
    · exact head.spellableAt hts.1 x hx
    · exact tail.spellableAt hts.2 x hx

end

end Surface

namespace Patch

open Surface

variable {s : Surface} {q target : NodeId} {b b' : Tree}

/-- **Painting a tree that can be spelled** leaves a surface that can be spelled. -/
theorem spellable_mount (hs : s.Spellable) (linked : s.Linked) (hq : s.parent? target = some q)
    (hb : b.Formed) : ((start s).mount target b).patch.surface.Spellable := by
  obtain ⟨-, id, hplaced⟩ := placed_mount (start s) target b linked hq
  obtain ⟨hhandles, hallocated⟩ := fresh_mount linked hq b
  generalize (start s).mount target b = r at hplaced hhandles hallocated
  have hshows : r.patch.surface.Shows exact id r.tree :=
    hplaced.shows_but.mono fun _ _ _ _ hfit => hfit List.not_mem_nil
  have hformed : r.tree.Formed :=
    Tree.formed_of_skeleton (Tree.skeleton_eq_of_detached_eq hplaced.detached).symm hb
  refine spellable_of_at fun x => ?_
  by_cases hold : x.index < s.allocated
  · intro k hk
    rw [hplaced.keeps.content x hold List.not_mem_nil] at hk
    obtain ⟨hnamed, childless⟩ := hs.at x k hk
    refine ⟨hnamed, fun hv => ?_⟩
    -- The parent of the target has a child, so it is none of those that never have any.
    have hne : x ∉ [q] := by
      intro hx
      obtain rfl := List.mem_singleton.1 hx
      have hmem := linked.mem_children_iff.2 hq
      rw [childless hv] at hmem
      exact List.not_mem_nil hmem
    rw [hplaced.keeps.children x hold hne]
    exact childless hv
  · intro k hk
    have hlt := lt_of_content? hk
    refine hshows.spellableAt hformed x ?_ k hk
    rw [hhandles, mem_fresh_iff]
    exact ⟨Nat.le_of_not_lt hold, hallocated ▸ hlt⟩

/-- **The outline of a painted document does not depend on the texts.** -/
theorem sameOutline_mount (linked : s.Linked) (hq : s.parent? target = some q)
    (same : b.skeleton = b'.skeleton) :
    ((start s).mount target b).patch.surface.SameOutline
      ((start s).mount target b').patch.surface := by
  obtain ⟨hnone, id, hplaced⟩ := placed_mount (start s) target b linked hq
  obtain ⟨-, hhandled, hdetached, htexts⟩ := worked_mount (start s) b hnone
  have hpainted := Painted.first linked hq b
  generalize (start s).mount target b = r at hplaced hhandled hdetached htexts hpainted
  have hshows : r.patch.surface.Shows exact id r.tree :=
    hplaced.shows_but.mono fun _ _ _ _ hfit => hfit List.not_mem_nil
  have hshape : r.tree.skeleton = b'.skeleton := (Tree.skeleton_eq_of_detached_eq hdetached).trans same
  -- The texts of the second tree are written over those of the first.
  let p := start r.patch.surface
  obtain ⟨hrewritten, -⟩ := rewritten_update p r.tree b' hhandled hshape
  obtain ⟨-, hretexted, hdetached', hhandles, hshows'⟩ :=
    retexted_update p r.tree b' hshows hplaced.nodup hshape
  have hpainted' := hpainted.retext hretexted hhandles
    ((Tree.skeleton_eq_of_detached_eq hdetached').trans hshape.symm)
  have hwritten : r.patch.surface.SameOutline (p.update r.tree b').patch.surface := by
    rw [hrewritten.surface]
    exact .writeTexts fun c hc => htexts c.1 (mem_of_mem_changedTexts hc)
  exact hwritten.trans (SameOutline.of_twins (hpainted'.twins hshows' hdetached')).symm

end Patch

end LiveMarkup
