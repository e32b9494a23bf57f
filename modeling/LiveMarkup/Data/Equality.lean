import LiveMarkup.Data.Unfold

/-!
# Equality of data

Two values are equal if they have the same structure: identical scalars, arrays of equal items,
objects of equal values under the same keys. Two handles of one container are equal at once, and so
is a pair whose left container is under comparison already, which ends the walk over data that
hold themselves. At every object the two sides change places.

* `Heap.equal`: equality of values.
-/

namespace LiveMarkup.Heap

/-- Equality of two values within containers under comparison; those that are not are `free`. -/
def equalIn (h : Heap) (free : List Container) : Value → Value → Bool
  | .array a, .array b =>
    if a = b then true
    else if .array a ∈ free then
      (h.items a).length == (h.items b).length &&
        ((h.items a).zip (h.items b)).all fun p =>
          h.equalIn (free.erase (.array a)) p.1 p.2
    else true
  | .object a, .object b =>
    if a = b then true
    else if .object a ∈ free then
      (h.members a).length == (h.members b).length &&
        (h.members a).all fun e =>
          match h.peek b e.1 with
          | some v => h.equalIn (free.erase (.object a)) v e.2
          | none => false
    else true
  | v, w => v.same w
termination_by free.length
decreasing_by
  all_goals
    rw [List.length_erase_of_mem ‹_›]
    have := List.length_pos_of_mem ‹_ ∈ free›
    omega

/-- Equality of two values. -/
def equal (h : Heap) (v w : Value) : Bool := h.equalIn h.containers v w

end LiveMarkup.Heap
