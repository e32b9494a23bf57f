import LiveMarkup.Proofs.Surface.Links
import LiveMarkup.Surface.Html
import LiveMarkup.Surface.Load

/-!
# Markup and surfaces

The links of a surface that was read from markup agree, and the markup of a surface depends on the
content and the children of its nodes only.

* **`Linked.ofMarkup`**: the surface of a markup text.
* `Surface.Twins`: two surfaces with the same nodes.
* **`Twins.html_eq`**: they have the same markup.
-/

namespace LiveMarkup.Surface

variable {s s' s'' : Surface}

/-! ## Surfaces read from markup -/

mutual

/-- A source node is laid out with links that agree. -/
theorem Linked.load {s : Surface} (hs : s.Linked) {parent : NodeId} (hp : parent.index < s.allocated)
    (source : Source) :
    (s.load parent source).2.Linked ∧ s.allocated ≤ (s.load parent source).2.allocated := by
  have hlt : s.allocated < (s.alloc (contentOf source)).2.allocated := by simp
  have hattached : ((s.alloc (contentOf source)).2.attach parent ⟨s.allocated⟩ none).Linked :=
    (hs.alloc _).attach (Nat.lt_trans hp hlt) hlt fun e => by
      rw [e] at hp
      exact Nat.lt_irrefl _ hp
  have hgrows : s.allocated <
      ((s.alloc (contentOf source)).2.attach parent ⟨s.allocated⟩ none).allocated := by
    rwa [allocated_attach]
  cases source with
  | element name attributes children =>
    obtain ⟨hlinked, hle⟩ := hattached.loadAll hgrows children
    exact ⟨hlinked, Nat.le_trans (Nat.le_of_lt hgrows) hle⟩
  | _ => exact ⟨hattached, Nat.le_of_lt hgrows⟩

theorem Linked.loadAll {s : Surface} (hs : s.Linked) {parent : NodeId}
    (hp : parent.index < s.allocated) (forest : List Source) :
    (s.loadAll parent forest).Linked ∧ s.allocated ≤ (s.loadAll parent forest).allocated := by
  cases forest with
  | nil => exact ⟨hs, Nat.le_refl _⟩
  | cons source rest =>
    obtain ⟨hfirst, hle⟩ := hs.load hp source
    obtain ⟨hrest, hle'⟩ := hfirst.loadAll (Nat.lt_of_lt_of_le hp hle) rest
    exact ⟨hrest, Nat.le_trans hle hle'⟩

end

/-- **The links of a surface that was read from markup agree.** -/
theorem Linked.ofMarkup {markup : String} (h : Surface.ofMarkup markup = .ok s) : s.Linked := by
  unfold Surface.ofMarkup at h
  cases hf : Source.parse markup with
  | error e => simp [hf, Except.map] at h
  | ok forest =>
    simp only [hf, Except.map, Except.ok.injEq] at h
    exact h ▸ (Linked.empty.loadAll (by decide) forest).1

/-! ## Surfaces with the same nodes -/

/-- Two surfaces have the same nodes, with the same content and children. -/
structure Twins (s s' : Surface) : Prop where
  allocated : s'.allocated = s.allocated
  content : ∀ x, s'.content? x = s.content? x
  children : ∀ x, s'.children x = s.children x

theorem Twins.writeHtml_eq (h : s.Twins s') (depth : Nat) (x : NodeId) :
    s'.writeHtml depth x = s.writeHtml depth x := by
  induction depth generalizing x with
  | zero => rfl
  | succ depth ih =>
    have hcontent := h.content x
    have hchildren := h.children x
    unfold Surface.content? at hcontent
    unfold Surface.children at hchildren
    unfold Surface.writeHtml
    cases hn : s.node? x with
    | none =>
      cases hn' : s'.node? x with
      | none => rfl
      | some n' => simp [hn, hn'] at hcontent
    | some n =>
      cases hn' : s'.node? x with
      | none => simp [hn, hn'] at hcontent
      | some n' =>
        simp only [hn, hn', Option.map_some, Option.some.injEq] at hcontent hchildren
        simp only [hcontent, hchildren, funext ih]

/-- **Surfaces with the same nodes have the same markup.** -/
theorem Twins.html_eq (h : s.Twins s') : s'.html = s.html := by
  have hsize : s'.nodes.size = s.nodes.size := h.allocated
  rw [html, html, innerHtml, innerHtml, h.children, hsize, funext (h.writeHtml_eq s.nodes.size)]

end LiveMarkup.Surface
