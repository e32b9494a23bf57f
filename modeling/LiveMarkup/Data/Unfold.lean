import LiveMarkup.Data.Heap
import LiveMarkup.Text.Quoted

/-!
# Unfoldings

A value written out as a tree, in which a container met again inside itself is cut off.

* `Heap.unfold`: the tree of a value.
* `Unfolding.precise`: the text of a tree that shows the kind of every value, used in messages.
-/

namespace LiveMarkup

/-- A container of either kind. -/
inductive Container where
  | array (a : ArrayId)
  | object (o : ObjectId)
  deriving DecidableEq, Repr

/-- The tree of a value. -/
inductive Unfolding where
  | null
  | bool (b : Bool)
  | number (n : Number)
  | string (s : String)
  | array (items : List Unfolding)
  | object (members : List (String × Unfolding)) (observed : Bool)
  | arrayCycle
  | objectCycle

namespace Heap

def containers (h : Heap) : List Container :=
  h.arrayIds.map .array ++ h.objectIds.map .object

/-- The tree of a value within containers under way; those that are not are `free`. -/
def unfoldIn (h : Heap) (free : List Container) : Value → Unfolding
  | .null => .null
  | .bool b => .bool b
  | .number n => .number n
  | .string s => .string s
  | .array a =>
    if .array a ∈ free then
      .array ((h.items a).map fun v => h.unfoldIn (free.erase (.array a)) v)
    else .arrayCycle
  | .object o =>
    if .object o ∈ free then
      .object ((h.members o).map fun e => (e.1, h.unfoldIn (free.erase (.object o)) e.2))
        (h.isObserved o)
    else .objectCycle
termination_by free.length
decreasing_by
  all_goals
    rw [List.length_erase_of_mem ‹_›]
    have := List.length_pos_of_mem ‹_ ∈ free›
    omega

/-- The tree of a value. -/
def unfold (h : Heap) (v : Value) : Unfolding := h.unfoldIn h.containers v

end Heap

namespace Unfolding

mutual

/-- The text of a tree that shows the kind of every value. -/
def precise : Unfolding → String
  | null => "Null"
  | bool b => "Bool(" ++ (if b then "true" else "false") ++ ")"
  | number n => "Number(" ++ n.precise ++ ")"
  | string s => "String(" ++ Text.quote s ++ ")"
  | array items => "Array([" ++ String.intercalate ", " (preciseItems items) ++ "])"
  | object members _ =>
    "Object(\x7b" ++ String.intercalate ", " (preciseMembers members) ++ "\x7d)"
  | arrayCycle => "Array(Array [<cycle>])"
  | objectCycle => "Object(Object \x7b <cycle> \x7d)"

def preciseItems : List Unfolding → List String
  | [] => []
  | u :: us => u.precise :: preciseItems us

def preciseMembers : List (String × Unfolding) → List String
  | [] => []
  | (key, u) :: ms => (Text.quote key ++ ": " ++ u.precise) :: preciseMembers ms

end

end Unfolding

/-- The text of a value that shows the kind of every part. -/
def Heap.precise (h : Heap) (v : Value) : String := (h.unfold v).precise

end LiveMarkup
