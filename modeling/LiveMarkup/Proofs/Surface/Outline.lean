import LiveMarkup.Proofs.Markup.Joined
import LiveMarkup.Proofs.Surface.Layout
import LiveMarkup.Proofs.Surface.Worked

/-!
# The outline of a document

The outline of a surface is all that it holds but for its texts. Whatever the texts are, the markup of the
document reads back with the outline that it has.

* `Surface.forestAt`: what is at a node, as a forest.
* `Surface.Spellable`: every node can be spelled.
* **`Spellable.ofMarkup`**: the surface of a markup text is like that.
* **`Spellable.exists_read`**: the markup of such a document reads back as it is, but for its texts.
* `Surface.SameOutline`, **`SameOutline.exists_read`**: surfaces that differ in their texts only.
-/

namespace LiveMarkup

open Markup

namespace Source

variable {α : Type} (f : α → List Source)

theorem spellAll_append (xs ys : List Source) : spellAll (xs ++ ys) = spellAll xs ++ spellAll ys := by
  induction xs with
  | nil => rfl
  | cons x xs ih => rw [List.cons_append, spellAll, spellAll, ih, List.append_assoc]

theorem spellAll_flatMap (l : List α) : spellAll (l.flatMap f) = l.flatMap fun a => spellAll (f a) := by
  induction l with
  | nil => rfl
  | cons a l ih => rw [List.flatMap_cons, List.flatMap_cons, spellAll_append, ih]

theorem strippedAll_flatMap (l : List α) :
    strippedAll (l.flatMap f) = l.flatMap fun a => strippedAll (f a) := by
  induction l with
  | nil => rfl
  | cons a l ih => rw [List.flatMap_cons, List.flatMap_cons, strippedAll_append, ih]

end Source

namespace Content

/-- The names of an element, and the content of a comment, are such as markup can have. -/
def Named : Content → Prop
  | .element tag attributes =>
    IsTagName tag.toList ∧ ∀ e ∈ attributes.entries, IsAttributeName e.1.toList
  | .comment content => IsCommentBody content.toList
  | _ => True

/-- An element that never has children. -/
def isVoid : Content → Bool
  | .element tag _ => Markup.isVoid tag
  | _ => false

/-- The content without what a text says. -/
def outline : Content → Content
  | .text _ => .text ""
  | k => k

/-- What a node is in a forest, with what is below it; a document is nothing but that. -/
def sources (below : List Source) : Content → List Source
  | .document => below
  | .element tag attributes => [.element tag attributes.entries below]
  | .text content => [.text content]
  | .comment content => [.comment content]

theorem formed_sources {k : Content} {below : List Source} (hk : k.Named)
    (childless : k.isVoid → below = []) (hbelow : ∀ x ∈ below, x.Formed) :
    ∀ x ∈ k.sources below, x.Formed := by
  cases k with
  | document => exact hbelow
  | element tag attributes =>
    exact List.forall_mem_singleton.2 (.element tag _ _ hk.1 hk.2 childless hbelow)
  | text content => exact List.forall_mem_singleton.2 (.text content)
  | comment content => exact List.forall_mem_singleton.2 (.comment content hk)

theorem strippedAll_sources {k k' : Content} {below below' : List Source} (h : k'.outline = k.outline)
    (hbelow : Source.strippedAll below' = Source.strippedAll below) :
    Source.strippedAll (k'.sources below') = Source.strippedAll (k.sources below) := by
  cases k <;> cases k' <;> cases h
  · exact hbelow
  · simp only [sources, Source.strippedAll, Source.stripped, hbelow]
  · rfl
  · rfl

theorem named_congr {k k' : Content} (h : k.outline = k'.outline) (hk : k.Named) : k'.Named := by
  cases k <;> cases k' <;> cases h <;> exact hk

theorem isVoid_congr {k k' : Content} (h : k.outline = k'.outline) : k'.isVoid = k.isVoid := by
  cases k <;> cases k' <;> cases h <;> rfl

end Content

namespace Surface

variable {s s' s'' : Surface} {parent : NodeId} {x : Source} {xs : List Source}

/-! ## Forests at nodes -/

/-- What is at a node, down to a depth. -/
def forestAt (s : Surface) : Nat → NodeId → List Source
  | 0, _ => []
  | depth + 1, id =>
    match s.node? id with
    | none => []
    | some n => n.content.sources (n.children.flatMap (s.forestAt depth))

theorem forestAt_of_none {id : NodeId} (hn : s.node? id = none) (depth : Nat) :
    s.forestAt (depth + 1) id = [] := by rw [forestAt, hn]

theorem forestAt_of_some {id : NodeId} {n : SurfaceNode} (hn : s.node? id = some n) (depth : Nat) :
    s.forestAt (depth + 1) id = n.content.sources (n.children.flatMap (s.forestAt depth)) := by
  rw [forestAt, hn]

/-- What the document holds. -/
def forest (s : Surface) : List Source := (s.children root).flatMap (s.forestAt s.nodes.size)

/-- Every node can be spelled, and elements that never have children have none. -/
structure Spellable (s : Surface) : Prop where
  named : ∀ x k, s.content? x = some k → k.Named
  childless : ∀ x k, s.content? x = some k → k.isVoid → s.children x = []

namespace Spellable

theorem of_node? (h : s.Spellable) {id : NodeId} {n : SurfaceNode} (hn : s.node? id = some n) :
    n.content.Named ∧ (n.content.isVoid → n.children = []) := by
  have hcontent : s.content? id = some n.content := by rw [content?, hn]; rfl
  have hchildren : s.children id = n.children := by rw [Surface.children, hn]
  exact ⟨h.named id _ hcontent, hchildren ▸ h.childless id _ hcontent⟩

/-- The markup of a node is the spelling of what is there. -/
theorem writeHtml_eq (h : s.Spellable) (depth : Nat) (id : NodeId) :
    s.writeHtml depth id = Source.spellAll (s.forestAt depth id) := by
  induction depth generalizing id with
  | zero => rfl
  | succ depth ih =>
    cases hn : s.node? id with
    | none => rw [forestAt_of_none hn, writeHtml, hn]; rfl
    | some n =>
      have hbelow : n.children.flatMap (s.writeHtml depth) =
          Source.spellAll (n.children.flatMap (s.forestAt depth)) := by
        rw [Source.spellAll_flatMap, funext ih]
      obtain ⟨-, hvoid⟩ := h.of_node? hn
      rw [forestAt_of_some hn, writeHtml, hn]
      cases hk : n.content with
      | document => simp only [hk, hbelow, Content.sources]
      | text content => simp only [hk, Content.sources, Source.spellAll, Source.spell, List.append_nil]
      | comment content => simp only [hk, Content.sources, Source.spellAll, Source.spell, List.append_nil]
      | element tag attributes =>
        rw [hk] at hvoid
        have hempty : ((n.children.flatMap (s.forestAt depth)).isEmpty && Markup.isVoid tag) =
            (n.children.isEmpty && Markup.isVoid tag) := by
          by_cases hv : Markup.isVoid tag
          · rw [hvoid hv]
            rfl
          · rw [Bool.eq_false_iff.2 hv, Bool.and_false, Bool.and_false]
        simp only [hk, hbelow, Content.sources, Source.spellAll, Source.spell, hempty, Table.ofList_entries,
          List.append_nil]

theorem formed_forestAt (h : s.Spellable) (depth : Nat) (id : NodeId) :
    ∀ x ∈ s.forestAt depth id, x.Formed := by
  induction depth generalizing id with
  | zero => exact fun _ hx => absurd hx List.not_mem_nil
  | succ depth ih =>
    cases hn : s.node? id with
    | none => rw [forestAt_of_none hn]; exact fun _ hx => absurd hx List.not_mem_nil
    | some n =>
      obtain ⟨hnamed, hvoid⟩ := h.of_node? hn
      rw [forestAt_of_some hn]
      refine Content.formed_sources hnamed (fun hv => ?_) fun x hx => ?_
      · rw [hvoid hv]
        rfl
      · obtain ⟨id', -, hx⟩ := List.mem_flatMap.1 hx
        exact ih id' x hx

/-- **The markup of a document whose nodes can be spelled** reads back as the document, but for its
texts. -/
theorem exists_read (h : s.Spellable) :
    ∃ read, Source.parse s.html = .ok read ∧
      Source.strippedAll read = Source.mergedAll (Source.strippedAll s.forest) := by
  have hhtml : s.html = String.ofList (Source.spellAll s.forest) := by
    rw [html, innerHtml, forest, Source.spellAll_flatMap, funext (h.writeHtml_eq s.nodes.size)]
  rw [hhtml]
  refine Source.parse_spellAll_joined fun x hx => ?_
  obtain ⟨id, -, hx⟩ := List.mem_flatMap.1 hx
  exact h.formed_forestAt _ id x hx

/-! ## Surfaces read from markup -/

theorem empty : Surface.empty.Spellable where
  named x k hk := by
    obtain ⟨i⟩ := x
    match i, hk with
    | 0, rfl => trivial
  childless x k hk hvoid := by
    obtain ⟨i⟩ := x
    match i, hk with
    | 0, rfl => cases hvoid

/-- A new node at the end of a parent that may have children. -/
theorem adopt (h : s.Spellable) (hp : parent.index < s.allocated) {k : Content} (hk : k.Named)
    (full : ∀ k', s.content? parent = some k' → k'.isVoid = false) :
    ((s.alloc k).2.attach parent ⟨s.allocated⟩ none).Spellable := by
  obtain ⟨hloaded, hallocated, hcontent, hchildren⟩ := loaded_attach hp k
  generalize (s.alloc k).2.attach parent ⟨s.allocated⟩ none = s' at hloaded hallocated hcontent hchildren
  have hcases : ∀ x k', s'.content? x = some k' →
      x.index < s.allocated ∧ s.content? x = some k' ∨ x = ⟨s.allocated⟩ ∧ k' = k := by
    intro x k' hk'
    have hlt := lt_of_content? hk'
    rw [hallocated] at hlt
    rcases Nat.lt_succ_iff_lt_or_eq.1 hlt with hlt | heq
    · exact .inl ⟨hlt, (hloaded.content x hlt).symm.trans hk'⟩
    · obtain rfl : x = ⟨s.allocated⟩ := congrArg NodeId.mk heq
      exact .inr ⟨rfl, Option.some.inj (hk'.symm.trans hcontent)⟩
  refine ⟨fun x k' hk' => ?_, fun x k' hk' hvoid => ?_⟩
  · rcases hcases x k' hk' with ⟨-, hold⟩ | ⟨-, rfl⟩
    · exact h.named x k' hold
    · exact hk
  · rcases hcases x k' hk' with ⟨hlt, hold⟩ | ⟨rfl, -⟩
    · have hne : x ≠ parent := by
        rintro rfl
        rw [full k' hold] at hvoid
        cases hvoid
      rw [hloaded.children x hlt hne]
      exact h.childless x k' hold hvoid
    · exact hchildren

theorem named_contentOf (h : x.Formed) : (contentOf x).Named := by
  cases h with
  | element name attributes children tag named => exact ⟨tag, fun e he => named e (Table.mem_of_mem_ofList he)⟩
  | text content => trivial
  | comment content body => exact body

mutual

/-- A formed source node is laid out on nodes that can be spelled. -/
theorem load {s : Surface} (h : s.Spellable) {parent : NodeId} (hp : parent.index < s.allocated)
    (full : ∀ k, s.content? parent = some k → k.isVoid = false) (x : Source) (hx : x.Formed) :
    (s.load parent x).2.Spellable := by
  obtain ⟨-, hallocated, hcontent, -⟩ := loaded_attach hp (contentOf x)
  have hadopted := h.adopt hp (named_contentOf hx) full
  cases x with
  | element name attributes children =>
    refine hadopted.loadAll (hallocated ▸ Nat.lt_succ_self _) children ?_ (fun hne k hk => ?_)
    · cases hx with
      | element _ _ _ tag named childless each => exact each
    · obtain rfl := Option.some.inj (hcontent.symm.trans hk)
      cases hx with
      | element _ _ _ tag named childless => exact Bool.eq_false_iff.2 fun hv => hne (childless hv)
  | text content => exact hadopted
  | comment content => exact hadopted

theorem loadAll {s : Surface} (h : s.Spellable) {parent : NodeId} (hp : parent.index < s.allocated) (xs : List Source)
    (hxs : ∀ x ∈ xs, x.Formed)
    (full : xs ≠ [] → ∀ k, s.content? parent = some k → k.isVoid = false) :
    (s.loadAll parent xs).Spellable := by
  cases xs with
  | nil => exact h
  | cons x xs =>
    obtain ⟨hx, hxs⟩ := List.forall_mem_cons.1 hxs
    have hfull := full (List.cons_ne_nil x xs)
    obtain ⟨-, hloaded, -⟩ := lays_load s hp x
    refine (h.load hp hfull x hx).loadAll (Nat.lt_of_lt_of_le hp hloaded.allocated_le) xs hxs ?_
    intro _ k hk
    exact hfull k ((hloaded.content parent hp).symm.trans hk)

end

/-- **Every node of a surface that was read from markup can be spelled.** -/
theorem ofMarkup {markup : String} (h : Surface.ofMarkup markup = .ok s) : s.Spellable := by
  unfold Surface.ofMarkup at h
  cases hf : Source.parse markup with
  | error e => rw [hf] at h; cases h
  | ok forest =>
    rw [hf] at h
    obtain rfl := Except.ok.inj h
    refine empty.loadAll (by decide) forest (fun x hx => ((Source.regular_of_parse hf).each x hx).formed) ?_
    rintro - k hk
    obtain rfl := Option.some.inj hk
    rfl

end Spellable

/-! ## Surfaces that differ in texts -/

/-- Two surfaces with the same nodes, which differ at most in what their texts say. -/
structure SameOutline (s s' : Surface) : Prop where
  allocated : s'.allocated = s.allocated
  children : ∀ x, s'.children x = s.children x
  content : ∀ x, (s'.content? x).map Content.outline = (s.content? x).map Content.outline

namespace SameOutline

theorem refl (s : Surface) : s.SameOutline s := ⟨rfl, fun _ => rfl, fun _ => rfl⟩

theorem symm (h : s.SameOutline s') : s'.SameOutline s :=
  ⟨h.allocated.symm, fun x => (h.children x).symm, fun x => (h.content x).symm⟩

theorem trans (h : s.SameOutline s') (h' : s'.SameOutline s'') : s.SameOutline s'' :=
  ⟨h'.allocated.trans h.allocated, fun x => (h'.children x).trans (h.children x),
    fun x => (h'.content x).trans (h.content x)⟩

theorem of_twins (h : s.Twins s') : s.SameOutline s' :=
  ⟨h.allocated, h.children, fun x => congrArg _ (h.content x)⟩

/-- A text is written on a text node. -/
theorem setText {id : NodeId} (h : s.IsText id) (text : String) : s.SameOutline (s.setText id text) := by
  have hwritten := written_setText h text
  obtain ⟨content, hid⟩ := h
  refine ⟨hwritten.allocated, hwritten.children, fun x => ?_⟩
  have hset : s.setText id text =
      (s.modify id fun n => { n with content := .text text }).record (.setText id text) := by
    simp [Surface.setText, hid]
  rw [hset, content?_record, content?_modify_content]
  split
  · next he =>
    rw [he, hid]
    rfl
  · rfl

/-- Texts are written on text nodes. -/
theorem writeTexts {changes : List (NodeId × String)} (h : ∀ c ∈ changes, s.IsText c.1) :
    s.SameOutline (s.writeTexts changes) := by
  induction changes generalizing s with
  | nil => exact refl s
  | cons c changes ih =>
    obtain ⟨hc, hchanges⟩ := List.forall_mem_cons.1 h
    exact (setText hc c.2).trans (ih fun d hd => KeepsTexts.setText s c.1 c.2 d.1 (hchanges d hd))

theorem exists_content (h : s.SameOutline s') {x : NodeId} {k : Content} (hk : s'.content? x = some k) :
    ∃ k', s.content? x = some k' ∧ k'.outline = k.outline := by
  have hsame := h.content x
  rw [hk] at hsame
  obtain ⟨k', hk', he⟩ := Option.map_eq_some_iff.1 hsame.symm
  exact ⟨k', hk', he⟩

theorem spellable (h : s.SameOutline s') (hs : s.Spellable) : s'.Spellable where
  named x k hk := by
    obtain ⟨k', hk', he⟩ := h.exists_content hk
    exact Content.named_congr he (hs.named x k' hk')
  childless x k hk hvoid := by
    obtain ⟨k', hk', he⟩ := h.exists_content hk
    rw [h.children]
    exact hs.childless x k' hk' ((Content.isVoid_congr he).symm.trans hvoid)

theorem strippedAll_forestAt (h : s.SameOutline s') (depth : Nat) (id : NodeId) :
    Source.strippedAll (s'.forestAt depth id) = Source.strippedAll (s.forestAt depth id) := by
  induction depth generalizing id with
  | zero => rfl
  | succ depth ih =>
    have hcontent := h.content id
    have hchildren := h.children id
    unfold Surface.content? at hcontent
    unfold Surface.children at hchildren
    cases hn : s.node? id with
    | none =>
      cases hn' : s'.node? id with
      | none => rw [forestAt_of_none hn, forestAt_of_none hn']
      | some n' => simp [hn, hn'] at hcontent
    | some n =>
      cases hn' : s'.node? id with
      | none => simp [hn, hn'] at hcontent
      | some n' =>
        simp only [hn, hn', Option.map_some, Option.some.injEq] at hcontent hchildren
        rw [forestAt_of_some hn, forestAt_of_some hn', hchildren]
        refine Content.strippedAll_sources hcontent ?_
        rw [Source.strippedAll_flatMap, Source.strippedAll_flatMap, funext ih]

theorem strippedAll_forest (h : s.SameOutline s') :
    Source.strippedAll s'.forest = Source.strippedAll s.forest := by
  have hsize : s'.nodes.size = s.nodes.size := h.allocated
  rw [forest, forest, h.children, hsize, Source.strippedAll_flatMap, Source.strippedAll_flatMap,
    funext (h.strippedAll_forestAt s.nodes.size)]

/-- **The markup of documents that differ in texts** reads back the same, but for texts. -/
theorem exists_read (h : s.SameOutline s') (hs : s.Spellable) :
    ∃ read read', Source.parse s.html = .ok read ∧ Source.parse s'.html = .ok read' ∧
      Source.strippedAll read = Source.strippedAll read' := by
  obtain ⟨read, hread, hstripped⟩ := hs.exists_read
  obtain ⟨read', hread', hstripped'⟩ := (h.spellable hs).exists_read
  refine ⟨read, read', hread, hread', ?_⟩
  rw [hstripped, hstripped', h.strippedAll_forest]

end SameOutline

end Surface

end LiveMarkup
