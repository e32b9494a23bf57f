import LiveMarkup.Data.Heap

/-!
# The text of a value

The text that a placeholder shows for a value. The items of an array are joined by commas, null
items as the empty text; so is an array met again inside itself, which ends the walk.

* `Heap.display`: the text of a value.
-/

namespace LiveMarkup.Heap

/-- The text of a value within arrays under way; those that are not are `free`. -/
def displayIn (h : Heap) (free : List ArrayId) : Value → String
  | .null => "null"
  | .bool b => if b then "true" else "false"
  | .number n => n.plain
  | .string s => s
  | .object _ => "[object Object]"
  | .array a =>
    if a ∈ free then
      String.intercalate "," <| (h.items a).map fun v =>
        if v = .null then "" else h.displayIn (free.erase a) v
    else ""
termination_by free.length
decreasing_by
  rw [List.length_erase_of_mem ‹_›]
  have := List.length_pos_of_mem ‹a ∈ free›
  omega

/-- The text of a value. -/
def display (h : Heap) (v : Value) : String := h.displayIn h.arrayIds v

end LiveMarkup.Heap
