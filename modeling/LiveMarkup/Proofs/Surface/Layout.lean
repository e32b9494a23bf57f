import Mathlib
import LiveMarkup.Proofs.Markup.Spelling
import LiveMarkup.Proofs.Surface.Markup

/-!
# Source laid out on a surface

What is loaded onto a surface lies there as it was written, and its markup reads back as what was
loaded.

* `Surface.Lays`: a node and the younger nodes below it lay out a source node.
* `Surface.Loaded`: what loading does to the rest of the surface.
* **`lays_load`**, **`laysAll_loadAll`**: what is loaded is laid out.
* **`html_loadAll`**: the markup of a loaded forest is its standard spelling.
* **`parse_html`**: this markup gives the forest back.
-/

namespace LiveMarkup.Surface

open Markup (Token)

variable {s s' s'' : Surface}

/-! ## Layouts -/

mutual

/-- A node has the content of a source node, and its children lay out the children. -/
inductive Lays (s : Surface) : NodeId → Source → Prop where
  | leaf (id : NodeId) (x : Source) (data : s.content? id = some (contentOf x))
      (single : x.isElement = false) (none : s.children id = []) : Lays s id x
  | element (id : NodeId) (name : String) (attributes : List (String × String))
      (children : List Source) (data : s.content? id = some (.element name (Table.ofList attributes)))
      (below : LaysAll s id (s.children id) children) :
      Lays s id (.element name attributes children)

/-- Nodes that are younger than their parent lay out source nodes, one by one. -/
inductive LaysAll (s : Surface) : NodeId → List NodeId → List Source → Prop where
  | nil (parent : NodeId) : LaysAll s parent [] []
  | cons (parent id : NodeId) (ids : List NodeId) (x : Source) (xs : List Source)
      (younger : parent.index < id.index) (head : Lays s id x) (tail : LaysAll s parent ids xs) :
      LaysAll s parent (id :: ids) (x :: xs)

end

mutual

/-- A layout depends on the nodes that are at least as young as its root. -/
theorem Lays.transport {id : NodeId} {x : Source} (h : s.Lays id x)
    (content : ∀ y, id.index ≤ y.index → y.index < s.allocated → s'.content? y = s.content? y)
    (children : ∀ y, id.index ≤ y.index → y.index < s.allocated → s'.children y = s.children y) :
    s'.Lays id x := by
  cases h with
  | leaf id x data single none =>
    have hid := lt_of_content? data
    exact .leaf id x ((content id (Nat.le_refl _) hid).trans data) single
      ((children id (Nat.le_refl _) hid).trans none)
  | element id name attributes xs data below =>
    have hid := lt_of_content? data
    refine .element id name attributes xs ((content id (Nat.le_refl _) hid).trans data) ?_
    rw [children id (Nat.le_refl _) hid]
    exact below.transport (fun y hy => content y (Nat.le_of_lt hy))
      fun y hy => children y (Nat.le_of_lt hy)

theorem LaysAll.transport {parent : NodeId} {ids : List NodeId} {xs : List Source}
    (h : s.LaysAll parent ids xs)
    (content : ∀ y, parent.index < y.index → y.index < s.allocated → s'.content? y = s.content? y)
    (children : ∀ y, parent.index < y.index → y.index < s.allocated → s'.children y = s.children y) :
    s'.LaysAll parent ids xs := by
  cases h with
  | nil => exact .nil parent
  | cons _ id ids x xs younger head tail =>
    exact .cons parent id ids x xs younger
      (head.transport (fun y hy => content y (Nat.lt_of_lt_of_le younger hy))
        fun y hy => children y (Nat.lt_of_lt_of_le younger hy))
      (tail.transport content children)

end

theorem Lays.content {id : NodeId} {x : Source} (h : s.Lays id x) :
    s.content? id = some (contentOf x) := by
  cases h with
  | leaf id x data => exact data
  | element id name attributes children data => exact data

theorem LaysAll.isEmpty {parent : NodeId} {ids : List NodeId} {xs : List Source}
    (h : s.LaysAll parent ids xs) : ids.isEmpty = xs.isEmpty := by
  cases h <;> rfl

theorem node?_of_content? {id : NodeId} {k : Content} (h : s.content? id = some k) :
    ∃ n, s.node? id = some n ∧ n.content = k ∧ n.children = s.children id := by
  obtain ⟨n, hn, hk⟩ := Option.map_eq_some_iff.1 h
  refine ⟨n, hn, hk, ?_⟩
  rw [Surface.children, hn]

mutual

/-- The markup of a node that lays out a source node, down to a depth that reaches the youngest node. -/
theorem Lays.writeHtml_eq {id : NodeId} {x : Source} (h : s.Lays id x) {depth : Nat}
    (hd : s.allocated ≤ depth + id.index) : s.writeHtml depth id = x.spell := by
  have hid := lt_of_content? h.content
  obtain ⟨depth, rfl⟩ : ∃ d, depth = d + 1 := ⟨depth - 1, by omega⟩
  cases h with
  | leaf id x data single none =>
    obtain ⟨n, hn, hk, -⟩ := node?_of_content? data
    cases x with
    | element name attributes children => cases single
    | text content => simp only [writeHtml, hn, hk, contentOf, Source.spell]
    | comment content => simp only [writeHtml, hn, hk, contentOf, Source.spell]
  | element id name attributes children data below =>
    obtain ⟨n, hn, hk, hchildren⟩ := node?_of_content? data
    have hbelow : (s.children id).flatMap (s.writeHtml depth) = Source.spellAll children :=
      below.flatMap_writeHtml (by omega)
    simp only [writeHtml, hn, hk, hchildren, hbelow, below.isEmpty, Source.spell]

theorem LaysAll.flatMap_writeHtml {parent : NodeId} {ids : List NodeId} {xs : List Source}
    (h : s.LaysAll parent ids xs) {depth : Nat} (hd : s.allocated ≤ depth + (parent.index + 1)) :
    ids.flatMap (s.writeHtml depth) = Source.spellAll xs := by
  cases h with
  | nil => rfl
  | cons _ id ids x xs younger head tail =>
    rw [List.flatMap_cons, head.writeHtml_eq (by omega), tail.flatMap_writeHtml hd, Source.spellAll]

end

/-! ## Loading -/

/-- What loading nodes under a parent does to the nodes that were there. -/
structure Loaded (s : Surface) (parent : NodeId) (ids : List NodeId) (s' : Surface) : Prop where
  allocated_le : s.allocated ≤ s'.allocated
  added : s'.children parent = s.children parent ++ ids
  content : ∀ y, y.index < s.allocated → s'.content? y = s.content? y
  children : ∀ y, y.index < s.allocated → y ≠ parent → s'.children y = s.children y

variable {parent : NodeId} {ids ids' : List NodeId}

theorem Loaded.refl (s : Surface) (parent : NodeId) : s.Loaded parent [] s :=
  ⟨Nat.le_refl _, (List.append_nil _).symm, fun _ _ => rfl, fun _ _ _ => rfl⟩

theorem Loaded.trans (h : s.Loaded parent ids s') (h' : s'.Loaded parent ids' s'') :
    s.Loaded parent (ids ++ ids') s'' where
  allocated_le := Nat.le_trans h.allocated_le h'.allocated_le
  added := by rw [h'.added, h.added, List.append_assoc]
  content y hy := (h'.content y (Nat.lt_of_lt_of_le hy h.allocated_le)).trans (h.content y hy)
  children y hy hne :=
    (h'.children y (Nat.lt_of_lt_of_le hy h.allocated_le) hne).trans (h.children y hy hne)

/-- Loading under a new node is part of loading that node. -/
theorem Loaded.below (h : s.Loaded parent [⟨s.allocated⟩] s') (h' : s'.Loaded ⟨s.allocated⟩ ids s'')
    (hp : parent.index < s.allocated) : s.Loaded parent [⟨s.allocated⟩] s'' := by
  have hne : ∀ y : NodeId, y.index < s.allocated → y ≠ ⟨s.allocated⟩ := by
    rintro y hy rfl
    exact Nat.lt_irrefl _ hy
  have hlt : ∀ y : NodeId, y.index < s.allocated → y.index < s'.allocated := fun y hy =>
    Nat.lt_of_lt_of_le hy h.allocated_le
  refine ⟨Nat.le_trans h.allocated_le h'.allocated_le, ?_, fun y hy => ?_, fun y hy hy' => ?_⟩
  · rw [h'.children parent (hlt parent hp) (hne parent hp), h.added]
  · rw [h'.content y (hlt y hy), h.content y hy]
  · rw [h'.children y (hlt y hy) (hne y hy), h.children y hy hy']

/-- A layout stays as it is while more is loaded under an older node. -/
theorem Lays.loaded {id : NodeId} {x : Source} (h : s.Lays id x) (hload : s.Loaded parent ids s')
    (older : parent.index < id.index) : s'.Lays id x :=
  h.transport (fun y _ hy => hload.content y hy) fun y hle hy => hload.children y hy <| by
    rintro rfl
    exact Nat.lt_irrefl _ (Nat.lt_of_lt_of_le older hle)

/-- A new node at the end of a parent. -/
theorem loaded_attach (hp : parent.index < s.allocated) (k : Content) :
    s.Loaded parent [⟨s.allocated⟩] ((s.alloc k).2.attach parent ⟨s.allocated⟩ none) ∧
      ((s.alloc k).2.attach parent ⟨s.allocated⟩ none).allocated = s.allocated + 1 ∧
      ((s.alloc k).2.attach parent ⟨s.allocated⟩ none).content? ⟨s.allocated⟩ = some k ∧
      ((s.alloc k).2.attach parent ⟨s.allocated⟩ none).children ⟨s.allocated⟩ = [] := by
  have hlt : (⟨s.allocated⟩ : NodeId).index < (s.alloc k).2.allocated := by simp
  have hne : ∀ y : NodeId, y.index < s.allocated → y ≠ ⟨s.allocated⟩ := by
    rintro y hy rfl
    exact Nat.lt_irrefl _ hy
  have hfree : (s.alloc k).2.parent? ⟨s.allocated⟩ = none :=
    (parent?_alloc s k _).trans (parent?_eq_none (Nat.le_refl _))
  have hchildren : ∀ y, ((s.alloc k).2.attach parent ⟨s.allocated⟩ none).children y =
      if y = parent then s.children parent ++ [⟨s.allocated⟩] else s.children y := fun y => by
    rw [children_attach (Nat.lt_trans hp hlt) hlt (hne parent hp), detach_of_parent?_eq_none hfree,
      children_alloc, children_alloc]
    rfl
  refine ⟨⟨?_, ?_, fun y hy => ?_, fun y hy hy' => ?_⟩, ?_, ?_, ?_⟩
  · rw [allocated_attach]
    exact Nat.le_of_lt hlt
  · rw [hchildren, if_pos rfl]
  · rw [content?_attach, content?_alloc, if_neg (hne y hy)]
  · rw [hchildren, if_neg hy']
  · rw [allocated_attach, allocated_alloc]
  · rw [content?_attach, content?_alloc, if_pos rfl]
  · rw [hchildren, if_neg (hne parent hp).symm]
    exact children_eq_nil (Nat.le_refl _)

mutual

/-- **A source node that is loaded is laid out** by the new node at the end of its parent. -/
theorem lays_load (s : Surface) {parent : NodeId} (hp : parent.index < s.allocated) (x : Source) :
    (s.load parent x).1 = ⟨s.allocated⟩ ∧ s.Loaded parent [⟨s.allocated⟩] (s.load parent x).2 ∧
      (s.load parent x).2.Lays ⟨s.allocated⟩ x := by
  obtain ⟨hloaded, hallocated, hcontent, hchildren⟩ := loaded_attach hp (contentOf x)
  cases x with
  | element name attributes children =>
    have hnew : (⟨s.allocated⟩ : NodeId).index <
        ((s.alloc (contentOf (.element name attributes children))).2.attach parent ⟨s.allocated⟩
          none).allocated := hallocated ▸ Nat.lt_succ_self _
    obtain ⟨ids, hbelow, hlays⟩ := laysAll_loadAll _ hnew children
    have hids := hbelow.added
    rw [hchildren, List.nil_append] at hids
    refine ⟨rfl, hloaded.below hbelow hp, .element _ name attributes children ?_ ?_⟩
    · exact (hbelow.content _ hnew).trans hcontent
    · exact hids ▸ hlays
  | text content => exact ⟨rfl, hloaded, .leaf _ _ hcontent rfl hchildren⟩
  | comment content => exact ⟨rfl, hloaded, .leaf _ _ hcontent rfl hchildren⟩

theorem laysAll_loadAll (s : Surface) {parent : NodeId} (hp : parent.index < s.allocated)
    (xs : List Source) :
    ∃ ids, s.Loaded parent ids (s.loadAll parent xs) ∧ (s.loadAll parent xs).LaysAll parent ids xs := by
  cases xs with
  | nil => exact ⟨[], .refl s parent, .nil parent⟩
  | cons x xs =>
    obtain ⟨-, hfirst, hx⟩ := lays_load s hp x
    obtain ⟨ids, hrest, hxs⟩ :=
      laysAll_loadAll (s.load parent x).2 (Nat.lt_of_lt_of_le hp hfirst.allocated_le) xs
    exact ⟨_, hfirst.trans hrest, .cons parent _ ids x xs hp (hx.loaded hrest hp) hxs⟩

end

/-! ## The markup of a loaded forest -/

/-- **The markup of a loaded forest** is its standard spelling. -/
theorem html_loadAll (forest : List Source) :
    (empty.loadAll root forest).html = String.ofList (Source.spellAll forest) := by
  have hroot : root.index < empty.allocated := by decide
  obtain ⟨ids, hloaded, hlays⟩ := laysAll_loadAll empty hroot forest
  have hchildren : (empty.loadAll root forest).children root = ids := hloaded.added
  have hhtml : ids.flatMap ((empty.loadAll root forest).writeHtml
      (empty.loadAll root forest).nodes.size) = Source.spellAll forest :=
    hlays.flatMap_writeHtml (Nat.le_add_right _ _)
  rw [html, innerHtml, hchildren, hhtml]

/-- **Writing and reading markup are inverse.** The markup of a surface that was read from a text
parses to the forest of that text, with repeated attributes merged, and is its own markup. -/
theorem parse_html {markup : String} {forest : List Source} (h : Source.parse markup = .ok forest) :
    ∃ s, ofMarkup markup = .ok s ∧ Source.parse s.html = .ok (Source.mergedAll forest) ∧
      ∃ s', ofMarkup s.html = .ok s' ∧ s'.html = s.html := by
  have hparse := Source.parse_spellAll (Source.regular_of_parse h)
  refine ⟨empty.loadAll root forest, ?_, ?_, empty.loadAll root (Source.mergedAll forest), ?_, ?_⟩
  · rw [ofMarkup, h]
    rfl
  · rw [html_loadAll, hparse]
  · rw [ofMarkup, html_loadAll, hparse]
    rfl
  · rw [html_loadAll, html_loadAll, Source.spellAll_mergedAll]

theorem parse_html_paragraph :
    Source.parse "<p a=1 b a='2'>&lt;<br></p>" =
        .ok [.element "p" [("a", "1"), ("b", ""), ("a", "2")] [.text "<", .element "br" [] []]] ∧
      ∃ s, ofMarkup "<p a=1 b a='2'>&lt;<br></p>" = .ok s ∧
        Source.parse s.html =
          .ok [.element "p" [("a", "2"), ("b", "")] [.text "<", .element "br" [] []]] ∧
        ∃ s', ofMarkup s.html = .ok s' ∧ s'.html = s.html := by
  have hscan : Token.scan "<p a=1 b a='2'>&lt;<br></p>".toList =
      some [.opening "p" [("a", "1"), ("b", ""), ("a", "2")] false, .text "&lt;".toList,
        .opening "br" [] false, .closing "p"] := by
    have h₁ : Token.next "<p a=1 b a='2'>&lt;<br></p>".toList =
        some (.opening "p" [("a", "1"), ("b", ""), ("a", "2")] false, "&lt;<br></p>".toList) := by cbv
    have h₂ : Token.next "&lt;<br></p>".toList =
        some (.text "&lt;".toList, "<br></p>".toList) := by cbv
    have h₃ : Token.next "<br></p>".toList = some (.opening "br" [] false, "</p>".toList) := by cbv
    have h₄ : Token.next "</p>".toList = some (.closing "p", []) := by cbv
    rw [Token.scan_of_next (by decide) h₁, Token.scan_of_next (by decide) h₂,
      Token.scan_of_next (by decide) h₃, Token.scan_of_next (by decide) h₄, Token.scan_nil]
    rfl
  have hparse : Source.parse "<p a=1 b a='2'>&lt;<br></p>" =
      .ok [.element "p" [("a", "1"), ("b", ""), ("a", "2")] [.text "<", .element "br" [] []]] := by
    rw [Source.parse, hscan]
    cbv
  exact ⟨hparse, parse_html hparse⟩

end LiveMarkup.Surface
