import LiveMarkup.Data.Display
import LiveMarkup.Data.Equality

/-!
# Walks with a stack of containers

All walks over data share one stack, which holds the containers that they are in, the innermost first. A
container is put on the stack before a walk looks into it, unless it is on the stack already, and taken from
it afterwards. A walk has a number of calls that it may nest, and gives no answer if these are too few.

* `Walk`, `Walk.visit`: walks, and the visit of a container.
* `Heap.displayWalk`: the text of a value.
* `Heap.equalWalk`: equality of two values.
-/

namespace LiveMarkup

/-- What a walk makes of the stack, with its answer, if it gives one. -/
abbrev Walk (α : Type) := StateT (List Container) Option α

/-- Looks into a container while it is on the stack. A container that is on the stack already is not looked
into. -/
def Walk.visit {α : Type} (c : Container) (again : α) (inside : Walk α) : Walk α := do
  if c ∈ (← get) then return again
  modify fun stack => c :: stack
  let answer ← inside
  modify fun stack => stack.erase c
  return answer

namespace Heap

/-- The text of a value, by at most so many nested calls. -/
def displayWalk (h : Heap) : Nat → Value → Walk String
  | 0, _ => failure
  | _ + 1, .null => return "null"
  | _ + 1, .bool b => return if b then "true" else "false"
  | _ + 1, .number n => return n.plain
  | _ + 1, .string s => return s
  | _ + 1, .object _ => return "[object Object]"
  | depth + 1, .array a =>
    Walk.visit (.array a) "" do
      let texts ← (h.items a).mapM fun v => if v = .null then pure "" else h.displayWalk depth v
      return String.intercalate "," texts

/-- Equality of two values, by at most so many nested calls. -/
def equalWalk (h : Heap) : Nat → Value → Value → Walk Bool
  | 0, _, _ => failure
  | depth + 1, .array a, .array b =>
    if a = b then return true
    else Walk.visit (.array a) true do
      if (h.items a).length = (h.items b).length then
        ((h.items a).zip (h.items b)).allM fun p => h.equalWalk depth p.1 p.2
      else return false
  | depth + 1, .object a, .object b =>
    if a = b then return true
    else Walk.visit (.object a) true do
      if (h.members a).length = (h.members b).length then
        (h.members a).allM fun e =>
          match h.peek b e.1 with
          | some v => h.equalWalk depth v e.2
          | none => return false
      else return false
  | _ + 1, v, w => return v.same w

end Heap

end LiveMarkup
