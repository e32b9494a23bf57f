import LiveMarkup.Proofs.Data.Layout
import LiveMarkup.Template.Bind

/-!
# What a template gives on plain data

What a placeholder shows of plain data does not depend on where on the heap they are laid out, and so
the result of a binding does not either.

* `Draft.display`, `Draft.descend`: the text of plain data, and the data at the end of a path.
* `Draft.shownAt`: what a placeholder shows.
* **`Holds.bind_eq`**: a template gives the same on any two layouts of the same data.
* `Tree.bound`: what it gives.
-/

namespace LiveMarkup

open Template (BindError indexBound resolve)

namespace Draft

mutual

/-- The text of plain data. -/
def display : Draft → String
  | .value .null => "null"
  | .value (.bool b) => if b then "true" else "false"
  | .value (.number n) => n.plain
  | .value (.string s) => s
  | .value _ => ""
  | .array items => String.intercalate "," (displayItems items)
  | .object _ => "[object Object]"

/-- The texts of the items of an array, null items as the empty text. -/
def displayItems : List Draft → List String
  | [] => []
  | .value .null :: ds => "" :: displayItems ds
  | d :: ds => d.display :: displayItems ds

end

/-- What a segment of a path names within plain data. -/
def enter (d : Draft) (segment : String) : Option Draft :=
  match d with
  | .object ms => findEntry segment ms
  | .array ds =>
    if segment = "length" then some (.value (.number (.ofNat ds.length)))
    else (Text.readNumeral 10 indexBound segment.toList).bind fun i => ds[i]?
  | .value (.string s) =>
    if segment = "length" then some (.value (.number (.ofNat (Text.units16 s.toList)))) else none
  | _ => none

/-- The data that a list of segments leads to, or the first segment that leads nowhere. -/
def descend (d : Draft) : List String → Except String Draft
  | [] => .ok d
  | segment :: rest =>
    match d.enter segment with
    | some e => e.descend rest
    | none => .error segment

/-- What a placeholder shows of plain data. -/
def shownAt (d : Draft) (path : String) : Except BindError String :=
  let path := Text.trim path
  if path.isEmpty then .error .emptyPlaceholder
  else
    match d.descend (Template.segments path) with
    | .ok e => .ok e.display
    | .error segment => .error (.unresolved path segment)

end Draft

/-! ## Plain data on the heap -/

namespace Heap

variable {h h' : Heap} {o o' : ObjectId} {v : Value} {d : Draft} {cs cs' : List Value}

theorem Holds.eq_null_iff (hh : h.Holds v d cs) : v = .null ↔ d = .value .null := by
  cases hh with
  | scalar v u isScalar alike =>
    cases alike with
    | refl => simp
    | number => simp
  | array => simp
  | object => simp

mutual

theorem Holds.displayIn {h : Heap} {v : Value} {d : Draft} {cs : List Value} (hh : h.Holds v d cs)
    (nodup : cs.Nodup) (free : List ArrayId) (hfree : ∀ a, .array a ∈ cs → a ∈ free) :
    h.displayIn free v = d.display := by
  cases hh with
  | scalar v u isScalar alike =>
    cases alike with
    | number a b plain => rw [Heap.displayIn, Draft.display, plain]
    | refl =>
      cases v with
      | array => cases isScalar
      | object => cases isScalar
      | _ => rw [Heap.displayIn, Draft.display]
  | array a ds cs inside items =>
    obtain ⟨hnot, hcs⟩ := List.nodup_cons.1 nodup
    rw [Heap.displayIn, if_pos (hfree a List.mem_cons_self), Draft.display]
    refine congrArg (String.intercalate ",") (items.displayItems hcs (free.erase a) fun b hb => ?_)
    have hne : b ≠ a := by
      rintro rfl
      exact hnot hb
    exact (List.mem_erase_of_ne hne).2 (hfree b (List.mem_cons_of_mem _ hb))
  | object o ms cs inside members => rw [Heap.displayIn, Draft.display]

theorem HoldsAll.displayItems {h : Heap} {vs : List Value} {ds : List Draft} {cs : List Value}
    (hh : h.HoldsAll vs ds cs) (nodup : cs.Nodup) (free : List ArrayId)
    (hfree : ∀ a, .array a ∈ cs → a ∈ free) :
    (vs.map fun v => if v = .null then "" else h.displayIn free v) = Draft.displayItems ds := by
  cases hh with
  | nil => rfl
  | cons v vs d ds cs cs' head tail =>
    obtain ⟨hcs, hcs', -⟩ := List.nodup_append.1 nodup
    have htail := tail.displayItems hcs' free fun a ha => hfree a (List.mem_append_right _ ha)
    have hhead := head.displayIn hcs free fun a ha => hfree a (List.mem_append_left _ ha)
    rw [List.map_cons, htail]
    by_cases hv : v = .null
    · rw [if_pos hv, head.eq_null_iff.1 hv, Draft.displayItems]
    · rw [if_neg hv, hhead, Draft.displayItems]
      exact mt head.eq_null_iff.2 hv

end

theorem Holds.display_eq (hh : h.Holds v d cs) (nodup : cs.Nodup) : h.display v = d.display := by
  refine hh.displayIn nodup h.arrayIds fun a ha => ?_
  exact List.mem_map.2 ⟨a.index, List.mem_range.2 (hh.inside _ ha), rfl⟩

/-- What a segment names is held where the data are. -/
theorem Holds.enter (hh : h.Holds v d cs) (segment : String) :
    ((Template.enter h v segment).result = none ∧ d.enter segment = none) ∨
      ∃ u e here, (Template.enter h v segment).result = some u ∧ d.enter segment = some e ∧
        h.Holds u e here ∧ here.Sublist cs := by
  cases hh with
  | scalar v u isScalar alike =>
    cases alike with
    | number => exact .inl ⟨rfl, rfl⟩
    | refl =>
      cases v with
      | string s =>
        unfold Template.enter Draft.enter
        by_cases hl : segment = "length"
        · simp only [hl, if_true]
          exact .inr ⟨_, _, [], rfl, rfl, .scalar _ _ rfl (.refl _), List.nil_sublist _⟩
        · exact .inl ⟨by simp [hl], by simp [hl]⟩
      | array => cases isScalar
      | object => cases isScalar
      | _ => exact .inl ⟨rfl, rfl⟩
  | array a ds cs inside items =>
    unfold Template.enter Draft.enter
    by_cases hl : segment = "length"
    · simp only [hl, if_true]
      refine .inr ⟨_, _, [], rfl, rfl, ?_, List.nil_sublist _⟩
      rw [items.length_eq]
      exact .scalar _ _ rfl (.refl _)
    · simp only [hl, if_false]
      cases Text.readNumeral 10 indexBound segment.toList with
      | none => exact .inl ⟨rfl, rfl⟩
      | some i =>
        rcases items.get i with hn | ⟨u, e, here, hu, he, hholds, hsub⟩
        · exact .inl hn
        · exact .inr ⟨u, e, here, hu, he, hholds, hsub.cons _⟩
  | object o ms cs inside members =>
    have hfound := members.find segment
    rw [← peek_eq_findEntry] at hfound
    rcases hfound with hn | ⟨u, e, here, hu, he, hholds, hsub⟩
    · exact .inl hn
    · exact .inr ⟨u, e, here, hu, he, hholds, hsub.cons _⟩

theorem Holds.descend (hh : h.Holds v d cs) (segments : List String) :
    (∃ s, (Template.descend h v segments).result = .error s ∧ d.descend segments = .error s) ∨
      ∃ u e here, (Template.descend h v segments).result = .ok u ∧ d.descend segments = .ok e ∧
        h.Holds u e here ∧ here.Sublist cs := by
  induction segments generalizing v d cs with
  | nil => exact .inr ⟨v, d, cs, rfl, rfl, hh, .refl _⟩
  | cons segment rest ih =>
    unfold Template.descend Draft.descend
    rcases hh.enter segment with ⟨hu, he⟩ | ⟨u, e, here, hu, he, hholds, hsub⟩
    · simp only [hu, he]
      exact .inl ⟨segment, rfl, rfl⟩
    · simp only [hu, he]
      rcases ih hholds with hs | ⟨u', e', here', hu', he', hholds', hsub'⟩
      · exact .inl hs
      · exact .inr ⟨u', e', here', hu', he', hholds', hsub'.trans hsub⟩

/-- What a placeholder shows is what it shows of the plain data. -/
theorem Holds.shownAt (hh : h.Holds (.object o) d cs) (nodup : cs.Nodup) (path : String) :
    (resolve h o path).result.map h.display = d.shownAt path := by
  unfold Template.resolve Draft.shownAt
  by_cases he : (Text.trim path).isEmpty
  · simp only [he, if_true]
    rfl
  · simp only [he]
    rcases hh.descend (Template.segments (Text.trim path)) with
      ⟨s, hu, hd⟩ | ⟨u, e, here, hu, hd, hholds, hsub⟩
    · simp only [hu, hd]
      rfl
    · simp only [hu, hd]
      exact congrArg Except.ok (hholds.display_eq (nodup.sublist hsub))

end Heap

/-! ## Bindings -/

namespace Tree

open Template

section

variable {h h' : Heap} {o o' : ObjectId}
  (same : ∀ path, (resolve h o path).result.map h.display = (resolve h' o' path).result.map h'.display)

include same

theorem result_bindPieces (ps : List Piece) :
    (bindPieces h o ps).result = (bindPieces h' o' ps).result := by
  induction ps with
  | nil => rfl
  | cons piece ps ih =>
    cases piece with
    | literal cs =>
      unfold bindPieces
      simp only [ih]
    | placeholder e =>
      unfold bindPieces
      have he := same (String.ofList e)
      cases hr : (resolve h o (String.ofList e)).result with
      | error err =>
        cases hr' : (resolve h' o' (String.ofList e)).result with
        | error err' =>
          simp only [hr, hr', Except.map, Except.error.injEq] at he
          simp only [hr, hr', he]
        | ok v' => simp [hr, hr', Except.map] at he
      | ok v =>
        cases hr' : (resolve h' o' (String.ofList e)).result with
        | error err' => simp [hr, hr', Except.map] at he
        | ok v' =>
          simp only [hr, hr', Except.map, Except.ok.injEq] at he
          simp only [hr, hr', ih, he]

end

mutual

/-- The result of a binding depends on what the placeholders show only. -/
theorem result_bind {h h' : Heap} {o o' : ObjectId}
    (same : ∀ path,
      (resolve h o path).result.map h.display = (resolve h' o' path).result.map h'.display)
    (t : Tree) : (t.bind h o).result = (t.bind h' o').result := by
  cases t with
  | text content handle =>
    have hpieces := result_bindPieces same (Piece.ofText content.toList)
    unfold Tree.bind interpolate
    simp only [hpieces]
  | element tag attributes children handle =>
    have hchildren := result_bindList same children
    unfold Tree.bind
    simp only [hchildren]

theorem result_bindList {h h' : Heap} {o o' : ObjectId}
    (same : ∀ path,
      (resolve h o path).result.map h.display = (resolve h' o' path).result.map h'.display)
    (ts : List Tree) : (bindList h o ts).result = (bindList h' o' ts).result := by
  cases ts with
  | nil => rfl
  | cons t ts =>
    have hfirst := result_bind same t
    have hrest := result_bindList same ts
    unfold bindList
    simp only [hfirst, hrest]
    cases (t.bind h' o').result <;> rfl

end

end Tree

/-- **A template gives the same on any two layouts of the same plain data.** -/
theorem Heap.Holds.bind_eq {h h' : Heap} {o o' : ObjectId} {d : Draft} {cs cs' : List Value}
    (hh : h.Holds (.object o) d cs) (nodup : cs.Nodup) (hh' : h'.Holds (.object o') d cs')
    (nodup' : cs'.Nodup) (t : Tree) : (t.bind h o).result = (t.bind h' o').result :=
  Tree.result_bind (fun path => (hh.shownAt nodup path).trans (hh'.shownAt nodup' path).symm) t

/-- What a template gives on instance data that are laid out on a heap of their own. -/
def Tree.bound (t : Tree) (ms : List (String × Draft)) : Except BindError Tree :=
  (t.bind (Heap.empty.buildObject ms).2 (Heap.empty.buildObject ms).1).result

/-- A template gives on data wherever they are held what it gives on the data. -/
theorem Heap.Holds.bound {h : Heap} {o : ObjectId} {ms : List (String × Draft)} {cs : List Value}
    (hh : h.Holds (.object o) (.object ms) cs) (nodup : cs.Nodup) (plain : (Draft.object ms).Plain)
    (t : Tree) : (t.bind h o).result = t.bound ms := by
  obtain ⟨cs', hbuilt, hnodup, -⟩ := plain.holds_build Heap.empty
  exact hh.bind_eq nodup hbuilt hnodup t

end LiveMarkup
