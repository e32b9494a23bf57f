import LiveMarkup.Data.Value
import LiveMarkup.Table

/-!
# The heap

Objects, arrays and the deps of observable slots. A dep lists the watchers that subscribed to its
slot, each once, in the order of subscription.

* `Heap.peek`, `Heap.items`, `Heap.subscribers`: what can be read.
* `Heap.putSlot`, `Heap.setItem`, `Heap.push`, `Heap.subscribe`, …: the elementary changes.
* `Draft`, `Heap.build`: fresh data laid out on the heap.
-/

namespace LiveMarkup

/-- The number of a dep. -/
structure DepId where
  index : Nat
  deriving DecidableEq, Repr

/-- The number of a watcher. -/
structure WatcherId where
  index : Nat
  deriving DecidableEq, Repr

/-- A named place of an object. It has a dep once its object has been observed. -/
structure Slot where
  value : Value
  dep : Option DepId
  deriving DecidableEq, Repr

/-- An object: its slots in the order in which they were made, and whether it has been observed. -/
structure Fields where
  slots : Table Slot
  observed : Bool

/-- Everything that values refer to. -/
structure Heap where
  objects : Array Fields
  arrays : Array (List Value)
  deps : Array (List WatcherId)

namespace Heap

def empty : Heap := ⟨#[], #[], #[]⟩

/-! ## Reading -/

def object? (h : Heap) (o : ObjectId) : Option Fields := h.objects[o.index]?

def slot? (h : Heap) (o : ObjectId) (key : String) : Option Slot :=
  (h.object? o).bind fun f => f.slots.find? key

/-- The value of a slot, if there is such a slot. -/
def peek (h : Heap) (o : ObjectId) (key : String) : Option Value :=
  (h.slot? o key).map (·.value)

/-- The dep of a slot, if the slot exists and has one. -/
def dep? (h : Heap) (o : ObjectId) (key : String) : Option DepId :=
  (h.slot? o key).bind (·.dep)

/-- The keys of an object, in the order in which their slots were made. -/
def keys (h : Heap) (o : ObjectId) : List String :=
  match h.object? o with
  | some f => f.slots.keys
  | none => []

/-- The keys of an object with their values. -/
def members (h : Heap) (o : ObjectId) : List (String × Value) :=
  match h.object? o with
  | some f => f.slots.entries.map fun e => (e.1, e.2.value)
  | none => []

def isObserved (h : Heap) (o : ObjectId) : Bool := (h.object? o).any (·.observed)

/-- The items of an array. -/
def items (h : Heap) (a : ArrayId) : List Value := h.arrays[a.index]?.getD []

/-- The subscribers of a dep, in the order of subscription. -/
def subscribers (h : Heap) (d : DepId) : List WatcherId := h.deps[d.index]?.getD []

def objectIds (h : Heap) : List ObjectId := (List.range h.objects.size).map ObjectId.mk

def arrayIds (h : Heap) : List ArrayId := (List.range h.arrays.size).map ArrayId.mk

/-! ## Elementary changes -/

def newObject (h : Heap) (f : Fields) : ObjectId × Heap :=
  (⟨h.objects.size⟩, { h with objects := h.objects.push f })

def newArray (h : Heap) (items : List Value) : ArrayId × Heap :=
  (⟨h.arrays.size⟩, { h with arrays := h.arrays.push items })

def newDep (h : Heap) : DepId × Heap :=
  (⟨h.deps.size⟩, { h with deps := h.deps.push [] })

/-- The heap with one object changed. -/
def modifyObject (h : Heap) (o : ObjectId) (change : Fields → Fields) : Heap :=
  { h with objects := h.objects.modify o.index change }

/-- The heap with a slot written: in place, or as the last slot of its object. -/
def putSlot (h : Heap) (o : ObjectId) (key : String) (slot : Slot) : Heap :=
  h.modifyObject o fun f => { f with slots := f.slots.insert key slot }

/-- A list with an item written; the places before it that did not exist hold null. -/
def setItemIn (items : List Value) (i : Nat) (v : Value) : List Value :=
  (items ++ List.replicate (i + 1 - items.length) Value.null).set i v

def setItem (h : Heap) (a : ArrayId) (i : Nat) (v : Value) : Heap :=
  { h with arrays := h.arrays.modify a.index fun items => setItemIn items i v }

def push (h : Heap) (a : ArrayId) (v : Value) : Heap :=
  { h with arrays := h.arrays.modify a.index fun items => items ++ [v] }

def setSubscribers (h : Heap) (d : DepId) (ws : List WatcherId) : Heap :=
  { h with deps := h.deps.modify d.index fun _ => ws }

/-- The heap with a watcher among the subscribers of a dep: at the end, unless it is there. -/
def subscribe (h : Heap) (d : DepId) (w : WatcherId) : Heap :=
  if w ∈ h.subscribers d then h else h.setSubscribers d (h.subscribers d ++ [w])

end Heap

/-! ## Drafts -/

/-- Data to be laid out: a value as it is, or a fresh array or object of drafts. -/
inductive Draft where
  | value (v : Value)
  | array (items : List Draft)
  | object (members : List (String × Draft))

/-- The slots of an object that was not observed after one more write. A value identical to the old
one is not written. -/
def writeSlot (slots : Table Slot) (key : String) (v : Value) : Table Slot :=
  match slots.find? key with
  | some slot => if slot.value.same v then slots else slots.insert key ⟨v, none⟩
  | none => slots.insert key ⟨v, none⟩

/-- The slots of an object that is written member by member. -/
def slotsOf (members : List (String × Value)) : Table Slot :=
  members.foldl (fun slots e => writeSlot slots e.1 e.2) Table.empty

namespace Heap

mutual

/-- Lays a draft out on the heap. -/
def build (h : Heap) : Draft → Value × Heap
  | .value v => (v, h)
  | .array items =>
    let (vs, h) := h.buildItems items
    let (a, h) := h.newArray vs
    (.array a, h)
  | .object members =>
    let (es, h) := h.buildMembers members
    let (o, h) := h.newObject ⟨slotsOf es, false⟩
    (.object o, h)

def buildItems (h : Heap) : List Draft → List Value × Heap
  | [] => ([], h)
  | d :: ds =>
    let (v, h) := h.build d
    let (vs, h) := h.buildItems ds
    (v :: vs, h)

def buildMembers (h : Heap) : List (String × Draft) → List (String × Value) × Heap
  | [] => ([], h)
  | (key, d) :: ms =>
    let (v, h) := h.build d
    let (es, h) := h.buildMembers ms
    ((key, v) :: es, h)

end

/-- Lays an object out on the heap. -/
def buildObject (h : Heap) (members : List (String × Draft)) : ObjectId × Heap :=
  let (es, h) := h.buildMembers members
  h.newObject ⟨slotsOf es, false⟩

end Heap

end LiveMarkup
