import Mathlib.Data.List.DropRight
import Mathlib.Data.List.Forall2
import LiveMarkup.Proofs.Patch.Texts
import LiveMarkup.Proofs.Template.Reading
import LiveMarkup.Proofs.Template.Spans

/-!
# What the expressions foretell

The expressions that are listed for a template tell what comes of binding it. The binding succeeds
exactly where each of them has a value, and otherwise fails as the first one that has none; a bound text
is the text with each placeholder replaced by what its expression shows.

* `failure?`: the failure of a result.
* **`Tree.failure?_bind`**: a binding fails as the first expression that fails.
* `Filled`: a text whose placeholders are replaced by what they show.
* **`Tree.filled_bind`**: the texts of a bound template.
* **`Tree.bind_foretold`**: the result.
-/

namespace LiveMarkup

/-! ## Blanks at the ends -/

namespace Text

theorem trimBlank_trimBlank (cs : List Char) : trimBlank (trimBlank cs) = trimBlank cs := by
  have hfront : (trimBlank cs).dropWhile isBlank = trimBlank cs := by
    obtain ⟨blanks, hsplit⟩ : trimBlank cs <+: cs.dropWhile isBlank := List.rdropWhile_prefix isBlank _
    cases htrim : trimBlank cs with
    | nil => rfl
    | cons c rest =>
      have hc := List.head?_dropWhile_not isBlank cs
      rw [← hsplit, htrim] at hc
      exact List.dropWhile_cons_of_neg (Bool.eq_false_iff.1 hc)
  conv_lhs => rw [trimBlank, hfront]
  exact List.rdropWhile_idempotent isBlank _

theorem trim_trim (s : String) : trim (trim s) = trim s := by
  rw [trim, trim, String.toList_ofList, trimBlank_trimBlank]

end Text

namespace Template

variable {h : Heap} {data : ObjectId} {ps : List Piece} {text : String}

/-- An expression leads to the same whether the blanks at its ends are there or not. -/
theorem resolve_trim (h : Heap) (data : ObjectId) (path : String) :
    resolve h data (Text.trim path) = resolve h data path := by
  unfold resolve
  rw [Text.trim_trim]

/-! ## Failures -/

/-- The failure of a result, if it is one. -/
def failure? {ε α : Type} : Except ε α → Option ε
  | .error err => some err
  | .ok _ => none

theorem failure?_eq_some_iff {ε α : Type} {x : Except ε α} {err : ε} :
    failure? x = some err ↔ x = .error err := by
  cases x <;> simp [failure?]

theorem failure?_eq_none_iff {ε α : Type} {x : Except ε α} : failure? x = none ↔ ∃ v, x = .ok v := by
  cases x <;> simp [failure?]

@[simp] theorem failure?_map {ε α β : Type} (f : α → β) (x : Except ε α) :
    failure? (x.map f) = failure? x := by
  cases x <;> rfl

/-- A list of pieces fails as the first of its expressions that fails. -/
theorem failure?_bindPieces (h : Heap) (data : ObjectId) (ps : List Piece) :
    failure? (bindPieces h data ps).result =
      (ps.filterMap Piece.expression?).findSome? fun e => failure? (resolve h data e).result := by
  induction ps with
  | nil => rfl
  | cons piece ps ih =>
    cases piece with
    | literal cs =>
      rw [List.filterMap_cons_none rfl, ← ih]
      exact failure?_map _ _
    | placeholder e =>
      have hshown : resolve h data (String.ofList (Text.trimBlank e)) = resolve h data (String.ofList e) := by
        rw [← resolve_trim h data (String.ofList e), Text.trim, String.toList_ofList]
      have hlisted : (Piece.placeholder e).expression? = some (String.ofList (Text.trimBlank e)) := rfl
      rw [List.filterMap_cons_some hlisted, List.findSome?_cons, hshown, ← ih, bindPieces]
      cases hr : (resolve h data (String.ofList e)).result with
      | error err => rfl
      | ok v => exact failure?_map _ _

/-! ## Filled texts -/

/-- What a piece is replaced by: a literal by itself, a placeholder by the text of its value. -/
def Piece.Shows (h : Heap) (data : ObjectId) : Piece → String → Prop
  | literal cs, shown => shown = String.ofList cs
  | placeholder e, shown =>
    ∃ v, (resolve h data (String.ofList e)).result = .ok v ∧ shown = h.display v

/-- A text cut into pieces of which each is replaced by what it shows. -/
def Filled (h : Heap) (data : ObjectId) (raw out : String) : Prop :=
  ∃ ps shown, Cut raw.toList ps ∧ List.Forall₂ (Piece.Shows h data) ps shown ∧
    out = String.join shown

theorem Fills.shows {reads : List Place} {out : String} (hf : Fills h data ps reads out) :
    ∃ shown, List.Forall₂ (Piece.Shows h data) ps shown ∧ out = String.join shown := by
  induction hf with
  | nil => exact ⟨[], .nil, rfl⟩
  | literal cs ps reads text rest ih =>
    obtain ⟨shown, hshown, rfl⟩ := ih
    exact ⟨String.ofList cs :: shown, .cons rfl hshown, String.join_cons.symm⟩
  | placeholder e v ps reads text found rest ih =>
    obtain ⟨shown, hshown, rfl⟩ := ih
    exact ⟨h.display v :: shown, .cons ⟨v, found, rfl⟩ hshown, String.join_cons.symm⟩

theorem Fills.filled {reads : List Place} {out : String}
    (hf : Fills h data (Piece.ofText text.toList) reads out) : Filled h data text out := by
  obtain ⟨shown, hshown, hout⟩ := hf.shows
  exact ⟨_, shown, cut_ofText text.toList, hshown, hout⟩

/-- A text that is bound is filled in. -/
theorem filled_interpolate {out : String} (hr : (interpolate h data text).result = .ok out) :
    Filled h data text out :=
  (fills_bindPieces hr).filled

end Template

/-! ## Templates -/

namespace Tree

open Template

mutual

/-- **A binding fails as the first expression that fails.** -/
theorem failure?_bind (h : Heap) (data : ObjectId) (t : Tree) :
    failure? (t.bind h data).result =
      t.placeholders.findSome? fun e => failure? (resolve h data e).result := by
  cases t with
  | text content handle =>
    rw [Tree.bind, failure?_map]
    exact failure?_bindPieces h data _
  | element tag attributes children handle =>
    rw [Tree.bind, failure?_map]
    exact failure?_bindList h data children

theorem failure?_bindList (h : Heap) (data : ObjectId) (ts : List Tree) :
    failure? (bindList h data ts).result =
      (placeholdersList ts).findSome? fun e => failure? (resolve h data e).result := by
  cases ts with
  | nil => rfl
  | cons t ts =>
    rw [placeholdersList, List.findSome?_append, ← failure?_bind h data t, ← failure?_bindList h data ts,
      bindList]
    cases (t.bind h data).result with
    | error err => rfl
    | ok b => exact failure?_map _ _

end

mutual

theorem Binds.filled {t b : Tree} {reads : List Place} (hb : Binds h data t reads b) :
    List.Forall₂ (Filled h data) t.texts b.texts := by
  cases hb with
  | text content handle reads out fills => exact .cons fills.filled .nil
  | element tag attributes children handle reads bs below => exact below.filled

theorem BindsAll.filled {ts bs : List Tree} {reads : List Place} (hb : BindsAll h data ts reads bs) :
    List.Forall₂ (Filled h data) (textsList ts) (textsList bs) := by
  cases hb with
  | nil => exact .nil
  | cons t ts reads later b bs head tail => exact List.rel_append head.filled tail.filled

end

/-- **The texts of a bound template** are those of the template, filled in. -/
theorem filled_bind (t : Tree) {b : Tree} (hr : (t.bind h data).result = .ok b) :
    List.Forall₂ (Filled h data) t.texts b.texts :=
  (binds_bind t hr).filled

/-- **The expressions of a template foretell its binding.** It succeeds exactly where all of them have
values, and otherwise fails as the first one in document order that has none. A bound template has the
shape, the tags and the attributes of the template and no handles, and its texts are those of the
template, each cut at its placeholders and filled in with the texts of their values. -/
theorem bind_foretold (h : Heap) (data : ObjectId) (t : Tree) :
    ((∃ b, (t.bind h data).result = .ok b) ↔
        ∀ e ∈ t.placeholders, ∃ v, (resolve h data e).result = .ok v) ∧
      (∀ err, (t.bind h data).result = .error err ↔
        ∃ before e after, t.placeholders = before ++ e :: after ∧
          (∀ x ∈ before, ∃ v, (resolve h data x).result = .ok v) ∧
          (resolve h data e).result = .error err) ∧
      ∀ b, (t.bind h data).result = .ok b →
        b.skeleton = t.skeleton ∧ b.detached = b ∧ List.Forall₂ (Filled h data) t.texts b.texts := by
  refine ⟨?_, fun err => ?_, fun b hb => ⟨skeleton_bind t hb, detached_bind t hb, filled_bind t hb⟩⟩
  · rw [← failure?_eq_none_iff, failure?_bind, List.findSome?_eq_none_iff]
    exact forall₂_congr fun e _ => failure?_eq_none_iff
  · rw [← failure?_eq_some_iff, failure?_bind, List.findSome?_eq_some_iff]
    simp only [failure?_eq_some_iff, failure?_eq_none_iff]
    exact exists₃_congr fun before e after => and_congr_right fun _ => and_comm

end Tree

end LiveMarkup
