import LiveMarkup.Proofs.Data.Visiting

/-!
# The text of data with cycles

The text of a value, said for every place in its unfolding: an array is its items joined by commas, but for
an array that is found inside itself, which is the empty text. Arrays that are shared, without one being
inside the other, are written in full each time. The walk gives that text for all data and comes to an end.

* `Heap.itemAt?`, `Heap.Inside`: the value at the end of a path of indices, and the arrays on the way to it.
* `Heap.Joined`: the texts at all places of an unfolding.
* **`run_displayWalk`**: the walk ends and keeps the stack.
* `joined_textAt`, **`Joined.eq_textAt`**: there are such texts, and they are what the walk writes.
* **`displayWalk_joins`**: the walk ends with the text at the root.
-/

namespace LiveMarkup.Heap

variable {h : Heap} {v u : Value} {stack : List Container} {p : List Nat} {i depth : Nat} {a b : ArrayId}
  {text : List Nat → String}

/-! ## Places in an unfolding -/

/-- The value at the end of a path of indices. -/
def itemAt? (h : Heap) (v : Value) (p : List Nat) : Option Value := h.at? v (p.map Key.index)

/-- An array on the way to the end of a path, which what is there is inside of. -/
def Inside (h : Heap) (v : Value) (p : List Nat) (a : ArrayId) : Prop :=
  ∃ n < p.length, h.itemAt? v (p.take n) = some (.array a)

instance (h : Heap) (v : Value) (p : List Nat) (a : ArrayId) : Decidable (h.Inside v p a) :=
  inferInstanceAs (Decidable (∃ n < p.length, h.itemAt? v (p.take n) = some (.array a)))

/-- The texts at all places in the unfolding of a value, where some containers are on the stack. -/
structure Joined (h : Heap) (stack : List Container) (v : Value) (text : List Nat → String) : Prop where
  null : ∀ p, h.itemAt? v p = some .null → text p = if p = [] then "null" else ""
  bool : ∀ p b, h.itemAt? v p = some (.bool b) → text p = if b then "true" else "false"
  number : ∀ p n, h.itemAt? v p = some (.number n) → text p = n.plain
  string : ∀ p s, h.itemAt? v p = some (.string s) → text p = s
  object : ∀ p o, h.itemAt? v p = some (.object o) → text p = "[object Object]"
  again : ∀ p a, h.itemAt? v p = some (.array a) → .array a ∈ stack ∨ h.Inside v p a → text p = ""
  array : ∀ p a, h.itemAt? v p = some (.array a) → .array a ∉ stack → ¬ h.Inside v p a →
    text p = String.intercalate "," ((List.range (h.items a).length).map fun i => text (p ++ [i]))

theorem itemAt?_snoc (v : Value) (p : List Nat) (i : Nat) :
    h.itemAt? v (p ++ [i]) = (h.itemAt? v p).bind fun u => h.child? u (.index i) := by
  rw [itemAt?, List.map_append, at?_append]
  exact congrArg _ (funext fun u => at?_singleton u (.index i))

theorem itemAt?_snoc_of_array (hp : h.itemAt? v p = some (.array a)) :
    h.itemAt? v (p ++ [i]) = (h.items a)[i]? := by
  rw [itemAt?_snoc, hp]
  rfl

theorem inside_snoc : h.Inside v (p ++ [i]) a ↔ h.itemAt? v p = some (.array a) ∨ h.Inside v p a := by
  constructor
  · rintro ⟨n, hn, ha⟩
    rw [List.length_append, List.length_singleton] at hn
    by_cases hlast : n = p.length
    · rw [hlast, List.take_left] at ha
      exact .inl ha
    · have hn : n < p.length := by omega
      rw [List.take_append_of_le_length hn.le] at ha
      exact .inr ⟨n, hn, ha⟩
  · rintro (ha | ⟨n, hn, ha⟩)
    · exact ⟨p.length, by simp, by rwa [List.take_left]⟩
    · refine ⟨n, by simp; omega, ?_⟩
      rwa [List.take_append_of_le_length hn.le]

/-! ## Arrays that are left -/

/-- The arrays that are not on the stack. -/
def freeArrays (h : Heap) (stack : List Container) : List ArrayId :=
  h.arrayIds.filter fun a => .array a ∉ stack

theorem mem_freeArrays : a ∈ h.freeArrays stack ↔ .array a ∈ h.unvisited stack := by
  rw [freeArrays, unvisited, List.mem_filter, List.mem_filter]
  simp [containers]

theorem freeArrays_nil (h : Heap) : h.freeArrays [] = h.arrayIds := by simp [freeArrays]

theorem freeArrays_cons (h : Heap) (a : ArrayId) (stack : List Container) :
    h.freeArrays (.array a :: stack) = (h.freeArrays stack).erase a :=
  filter_eq_erase h.nodup_arrayIds fun b => by simp

/-- The arrays that are neither on the stack nor on the way to the end of a path. -/
def freeAt (h : Heap) (stack : List Container) (v : Value) (p : List Nat) : List ArrayId :=
  (h.freeArrays stack).filter fun a => ¬ h.Inside v p a

theorem freeAt_nil : h.freeAt stack v [] = h.freeArrays stack := by
  simp [freeAt, Inside]

theorem freeAt_snoc (hp : h.itemAt? v p = some (.array a)) :
    h.freeAt stack v (p ++ [i]) = (h.freeAt stack v p).erase a :=
  filter_eq_erase (h.nodup_arrayIds.filter _) fun b => by
    rw [decide_eq_true_iff, decide_eq_true_iff, inside_snoc, hp, Option.some_inj, Value.array.injEq,
      not_or, ne_comm]

theorem mem_freeAt (ha : h.Exists (.array a)) :
    a ∈ h.freeAt stack v p ↔ .array a ∉ stack ∧ ¬ h.Inside v p a := by
  simp [freeAt, mem_freeArrays, mem_unvisited, Container.value, ha]

/-! ## The texts at all places -/

/-- The text at a place, if there is something. -/
def textAt (h : Heap) (stack : List Container) (v : Value) (p : List Nat) : String :=
  match h.itemAt? v p with
  | some .null => if p = [] then "null" else ""
  | some u => h.displayIn (h.freeAt stack v p) u
  | none => ""

theorem textAt_null (hp : h.itemAt? v p = some .null) :
    h.textAt stack v p = if p = [] then "null" else "" := by
  rw [textAt, hp]

theorem textAt_of_ne_null (hp : h.itemAt? v p = some u) (hu : u ≠ .null) :
    h.textAt stack v p = h.displayIn (h.freeAt stack v p) u := by
  rw [textAt, hp]
  cases u with
  | null => exact absurd rfl hu
  | _ => rfl

theorem textAt_nil : h.textAt stack v [] = h.displayIn (h.freeArrays stack) v := by
  by_cases hv : v = .null
  · rw [hv, textAt_null rfl, displayIn]
    rfl
  · rw [textAt_of_ne_null rfl hv, freeAt_nil]

/-- An array that may be written is its items joined by commas. -/
theorem textAt_array (hp : h.itemAt? v p = some (.array a)) (ha : a ∈ h.freeAt stack v p) :
    h.textAt stack v p = String.intercalate ","
      ((List.range (h.items a).length).map fun i => h.textAt stack v (p ++ [i])) := by
  rw [textAt_of_ne_null hp (by simp), displayIn, if_pos ha]
  refine congrArg _ (List.ext_getElem (by simp) fun i hi _ => ?_)
  have hi : i < (h.items a).length := by simpa using hi
  have hitem : h.itemAt? v (p ++ [i]) = some (h.items a)[i] := by
    rw [itemAt?_snoc_of_array hp, List.getElem?_eq_getElem hi]
  rw [List.getElem_map, List.getElem_map, List.getElem_range]
  by_cases hnull : (h.items a)[i] = .null
  · rw [if_pos hnull, textAt_null (hnull ▸ hitem)]
    simp
  · rw [if_neg hnull, textAt_of_ne_null hitem hnull, freeAt_snoc hp]

/-- **There are texts for all places** in an unfolding. -/
theorem joined_textAt (hg : h.Grounded) (hv : h.Exists v) (stack : List Container) :
    h.Joined stack v (h.textAt stack v) where
  null p hp := textAt_null hp
  bool p b hp := by rw [textAt_of_ne_null hp (by simp), displayIn]
  number p n hp := by rw [textAt_of_ne_null hp (by simp), displayIn]
  string p s hp := by rw [textAt_of_ne_null hp (by simp), displayIn]
  object p o hp := by rw [textAt_of_ne_null hp (by simp), displayIn]
  again p a hp hcut := by
    have hcut : a ∉ h.freeAt stack v p := by
      rw [mem_freeAt (hg.at? hv hp)]
      tauto
    rw [textAt_of_ne_null hp (by simp), displayIn, if_neg hcut]
  array p a hp hstack hinside :=
    textAt_array hp ((mem_freeAt (hg.at? hv hp)).2 ⟨hstack, hinside⟩)

/-- **The texts at all places are determined.** -/
theorem Joined.eq_textAt (hg : h.Grounded) (hv : h.Exists v) (hj : h.Joined stack v text)
    (hp : h.itemAt? v p = some u) : text p = h.textAt stack v p := by
  -- By induction on the arrays that may be written further down.
  induction hn : (h.freeAt stack v p).length using Nat.strongRecOn generalizing p u with
  | ind n ih =>
    subst hn
    have hj' := joined_textAt hg hv stack
    cases u with
    | null => rw [hj.null p hp, hj'.null p hp]
    | bool b => rw [hj.bool p b hp, hj'.bool p b hp]
    | number n => rw [hj.number p n hp, hj'.number p n hp]
    | string s => rw [hj.string p s hp, hj'.string p s hp]
    | object o => rw [hj.object p o hp, hj'.object p o hp]
    | array a =>
      by_cases hcut : .array a ∈ stack ∨ h.Inside v p a
      · rw [hj.again p a hp hcut, hj'.again p a hp hcut]
      · obtain ⟨hstack, hinside⟩ := not_or.1 hcut
        have hfree : a ∈ h.freeAt stack v p := (mem_freeAt (hg.at? hv hp)).2 ⟨hstack, hinside⟩
        rw [hj.array p a hp hstack hinside, hj'.array p a hp hstack hinside]
        refine congrArg _ (List.map_congr_left fun i hi => ?_)
        have hitem := List.getElem?_eq_getElem (List.mem_range.1 hi)
        refine ih _ ?_ ((itemAt?_snoc_of_array hp).trans hitem) rfl
        have hpos := List.length_pos_of_mem hfree
        rw [freeAt_snoc hp, List.length_erase_of_mem hfree]
        omega

/-! ## The walk -/

/-- **The walk ends and leaves the stack as it was.** Its calls are nested no deeper than there are
containers which are not on the stack. -/
theorem run_displayWalk (hg : h.Grounded) (hdepth : (h.unvisited stack).length < depth)
    (hv : h.Exists v) :
    (h.displayWalk depth v).run stack = some (h.displayIn (h.freeArrays stack) v, stack) := by
  induction depth generalizing stack v with
  | zero => exact absurd hdepth (Nat.not_lt_zero _)
  | succ depth ih =>
    cases v with
    | array a =>
      simp only [displayWalk, displayIn, mem_freeArrays]
      refine run_visit (c := .array a) hv fun hfree => ?_
      have hbelow := length_unvisited_cons hfree
      have hitems : ∀ u ∈ h.items a,
          StateT.run (if u = .null then pure "" else h.displayWalk depth u) (.array a :: stack) =
            some (if u = .null then "" else h.displayIn ((h.freeArrays stack).erase a) u,
              .array a :: stack) := by
        intro u hu
        by_cases hnull : u = .null
        · simp [hnull]
        · rw [if_neg hnull, if_neg hnull, ih (by omega) (hg.item hu), freeArrays_cons]
      simp [Walk.run_mapM hitems]
    | _ => rw [displayWalk, displayIn]; rfl

/-- **The text of a value.** The walk ends on all values, whatever they hold and share, and whatever is on
the stack; it writes the text at the root of the unfolding. -/
theorem displayWalk_joins (hg : h.Grounded) (hv : h.Exists v) (stack : List Container) :
    ∃ shown, (∀ depth, (h.unvisited stack).length < depth →
        (h.displayWalk depth v).run stack = some (shown, stack)) ∧
      (stack = [] → shown = h.display v) ∧
      (∃ text, h.Joined stack v text) ∧ ∀ text, h.Joined stack v text → text [] = shown := by
  refine ⟨h.displayIn (h.freeArrays stack) v, fun depth hdepth => run_displayWalk hg hdepth hv, ?_,
    ⟨h.textAt stack v, joined_textAt hg hv stack⟩, fun text hj => ?_⟩
  · rintro rfl
    rw [freeArrays_nil]
    rfl
  · rw [hj.eq_textAt hg hv (p := []) rfl, textAt_nil]

/-- An array that holds another one twice, then itself, nothing, and an object. -/
def knotted : Heap where
  objects := #[⟨Table.empty, false⟩]
  arrays := #[[.array ⟨1⟩, .array ⟨1⟩, .array ⟨0⟩, .null, .object ⟨0⟩], [.null, .bool true]]
  deps := #[]

theorem grounded_knotted : knotted.Grounded where
  slot {o key v} hp := by
    obtain ⟨_ | n⟩ := o <;> cases hp
  item := by
    rintro ⟨_ | _ | n⟩ v hv
    · have hv : v = .array ⟨1⟩ ∨ v = .array ⟨0⟩ ∨ v = .null ∨ v = .object ⟨0⟩ := by
        simpa [items, knotted] using hv
      rcases hv with rfl | rfl | rfl | rfl <;> simp [Exists, knotted]
    · have hv : v = .null ∨ v = .bool true := by simpa [items, knotted] using hv
      rcases hv with rfl | rfl <;> trivial
    · cases hv

/-- The array that is held twice is written twice, the one that holds itself is left out. -/
theorem displayWalk_knotted :
    (knotted.displayWalk 4 (.array ⟨0⟩)).run [] = some (",true,,true,,,[object Object]", []) := by
  obtain ⟨shown, hends, hroot, -, -⟩ := displayWalk_joins grounded_knotted (v := .array ⟨0⟩)
    (by decide : 0 < 2) []
  have hshown : knotted.display (.array ⟨0⟩) = ",true,,true,,,[object Object]" := by cbv
  rw [hends 4 (by decide), hroot rfl, hshown]

end LiveMarkup.Heap
