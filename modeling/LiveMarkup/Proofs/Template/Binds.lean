import LiveMarkup.Template.Bind

/-!
# Bindings that succeed

A binding that succeeds has gone through the whole template. This module says once what it has found and
read on the way, so that what holds of bound templates is shown along the template.

* `Template.mem_reads_enter`, `Template.enter_eq_some`: what one segment of a path reads and finds.
* `Template.Fills`, **`Template.fills_bindPieces`**: a text that is bound, piece by piece.
* `Tree.Binds`, **`Tree.binds_bind`**: a template that is bound, node by node.
-/

namespace LiveMarkup

namespace Template

variable {h : Heap} {data : ObjectId} {v w : Value} {p : Place} {segment : String}

/-- Nothing is read but slots. -/
theorem mem_reads_enter (hp : p ∈ (enter h v segment).reads) : v = .object p.object ∧ p.key = segment := by
  cases v with
  | object o =>
    obtain rfl := List.mem_singleton.1 hp
    exact ⟨rfl, rfl⟩
  | array a | string s =>
    rw [enter] at hp
    split at hp <;> cases hp
  | _ => cases hp

/-- What is found is in a slot, in an array, or a length. -/
theorem enter_eq_some (hr : (enter h v segment).result = some w) :
    (∃ o, v = .object o ∧ h.peek o segment = some w) ∨ (∃ a, v = .array a ∧ w ∈ h.items a) ∨
      ∃ x, w = .number x := by
  cases v with
  | object o => exact .inl ⟨o, rfl, hr⟩
  | array a =>
    rw [enter] at hr
    split at hr
    · exact .inr (.inr ⟨_, (Option.some.inj hr).symm⟩)
    · obtain ⟨i, -, hi⟩ := Option.bind_eq_some_iff.1 hr
      exact .inr (.inl ⟨a, rfl, List.mem_of_getElem? hi⟩)
  | string s =>
    rw [enter] at hr
    split at hr
    · exact .inr (.inr ⟨_, (Option.some.inj hr).symm⟩)
    · cases hr
  | _ => cases hr

/-- Pieces that are bound, with the places read for them and the text that they come to. -/
inductive Fills (h : Heap) (data : ObjectId) : List Piece → List Place → String → Prop where
  | nil : Fills h data [] [] ""
  | literal (cs : List Char) (ps : List Piece) (reads : List Place) (text : String)
      (rest : Fills h data ps reads text) : Fills h data (.literal cs :: ps) reads (String.ofList cs ++ text)
  | placeholder (e : List Char) (v : Value) (ps : List Piece) (reads : List Place) (text : String)
      (found : (resolve h data (String.ofList e)).result = .ok v) (rest : Fills h data ps reads text) :
      Fills h data (.placeholder e :: ps) ((resolve h data (String.ofList e)).reads ++ reads)
        (h.display v ++ text)

/-- A text is bound piece by piece. -/
theorem fills_bindPieces {ps : List Piece} {text : String} (hr : (bindPieces h data ps).result = .ok text) :
    Fills h data ps (bindPieces h data ps).reads text := by
  induction ps generalizing text with
  | nil =>
    cases hr
    exact .nil
  | cons piece ps ih =>
    cases piece with
    | literal cs =>
      rw [bindPieces] at hr ⊢
      cases hrest : (bindPieces h data ps).result with
      | error err => simp [hrest, Except.map] at hr
      | ok rest =>
        simp only [hrest, Except.map, Except.ok.injEq] at hr
        exact hr ▸ .literal cs ps _ rest (ih hrest)
    | placeholder e =>
      rw [bindPieces] at hr ⊢
      cases hv : (resolve h data (String.ofList e)).result with
      | error err => simp [hv] at hr
      | ok v =>
        cases hrest : (bindPieces h data ps).result with
        | error err => simp [hv, hrest, Except.map] at hr
        | ok rest =>
          simp only [hv, hrest, Except.map, Except.ok.injEq] at hr ⊢
          exact hr ▸ .placeholder e v ps _ rest hv (ih hrest)

end Template

namespace Tree

open Template

variable {h : Heap} {data : ObjectId}

mutual

/-- A template that is bound, with the places read for it and the tree that it comes to. -/
inductive Binds (h : Heap) (data : ObjectId) : Tree → List Place → Tree → Prop where
  | text (content : String) (handle : Option NodeId) (reads : List Place) (out : String)
      (fills : Fills h data (Piece.ofText content.toList) reads out) :
      Binds h data (.text content handle) reads (.text out none)
  | element (tag : String) (attributes : Attributes) (children : List Tree) (handle : Option NodeId)
      (reads : List Place) (bs : List Tree) (below : BindsAll h data children reads bs) :
      Binds h data (.element tag attributes children handle) reads (.element tag attributes bs none)

inductive BindsAll (h : Heap) (data : ObjectId) : List Tree → List Place → List Tree → Prop where
  | nil : BindsAll h data [] [] []
  | cons (t : Tree) (ts : List Tree) (reads later : List Place) (b : Tree) (bs : List Tree)
      (head : Binds h data t reads b) (tail : BindsAll h data ts later bs) :
      BindsAll h data (t :: ts) (reads ++ later) (b :: bs)

end

mutual

/-- **A template is bound node by node.** -/
theorem binds_bind (t : Tree) {b : Tree} (hr : (t.bind h data).result = .ok b) :
    Binds h data t (t.bind h data).reads b := by
  cases t with
  | text content handle =>
    rw [Tree.bind] at hr ⊢
    cases hout : (interpolate h data content).result with
    | error err => simp [hout, Except.map] at hr
    | ok out =>
      simp only [hout, Except.map, Except.ok.injEq] at hr
      exact hr ▸ .text content handle _ out (fills_bindPieces hout)
  | element tag attributes children handle =>
    rw [Tree.bind] at hr ⊢
    cases hbs : (bindList h data children).result with
    | error err => simp [hbs, Except.map] at hr
    | ok bs =>
      simp only [hbs, Except.map, Except.ok.injEq] at hr
      exact hr ▸ .element tag attributes children handle _ bs (bindsAll_bindList children hbs)

theorem bindsAll_bindList (ts : List Tree) {bs : List Tree} (hr : (bindList h data ts).result = .ok bs) :
    BindsAll h data ts (bindList h data ts).reads bs := by
  cases ts with
  | nil =>
    cases hr
    exact .nil
  | cons t ts =>
    rw [bindList] at hr ⊢
    cases hb : (t.bind h data).result with
    | error err => simp [hb] at hr
    | ok b =>
      cases hbs : (bindList h data ts).result with
      | error err => simp [hb, hbs, Except.map] at hr
      | ok bs =>
        simp only [hb, hbs, Except.map, Except.ok.injEq] at hr ⊢
        exact hr ▸ .cons t ts _ _ b bs (binds_bind t hb) (bindsAll_bindList ts hbs)

end

end Tree

end LiveMarkup
