import LiveMarkup.Data.Heap

/-!
# Observation

To observe an object is to give every slot of it a dep, and to observe every object that stands in
one of its slots, and so on. Arrays are never entered, and an object is observed at most once.

* `Heap.gather`: the objects that an observation reaches.
* `Heap.observe`: the observation of a value.
* `Heap.observeWalk`: the same as a walk that marks an object and goes on from its slots.
* `Heap.store`: the write of a slot, without the notification that follows it.
-/

namespace LiveMarkup.Heap

/-- The objects that stand in the slots of an object. -/
def childObjects (h : Heap) (o : ObjectId) : List ObjectId :=
  (h.members o).filterMap fun e => e.2.object?

/-- Of the objects in `free`, those reached from `pending` through slots, in the order in which a
walk meets them first. -/
def gather (h : Heap) (free pending : List ObjectId) : List ObjectId :=
  match pending with
  | [] => []
  | o :: rest =>
    if o ∈ free then o :: h.gather (free.erase o) (h.childObjects o ++ rest)
    else h.gather free rest
termination_by (free.length, pending.length)
decreasing_by
  · apply Prod.Lex.left
    rw [List.length_erase_of_mem ‹_›]
    have := List.length_pos_of_mem ‹o ∈ free›
    omega
  · apply Prod.Lex.right
    simp

/-- The objects that have not been observed. -/
def unobserved (h : Heap) : List ObjectId := h.objectIds.filter fun o => !h.isObserved o

/-- The heap with a dep for a slot, if it had none. -/
def installDep (h : Heap) (o : ObjectId) (key : String) : Heap :=
  match h.slot? o key with
  | some ⟨v, none⟩ =>
    let (d, h) := h.newDep
    h.putSlot o key ⟨v, some d⟩
  | _ => h

/-- The heap with one object observed. -/
def mark (h : Heap) (o : ObjectId) : Heap :=
  (h.keys o).foldl (fun h key => h.installDep o key)
    (h.modifyObject o fun f => { f with observed := true })

/-- The heap with an object observed, and all that it reaches through slots. -/
def observeObject (h : Heap) (o : ObjectId) : Heap :=
  (h.gather h.unobserved [o]).foldl mark h

/-- The heap with a value observed; only objects are. -/
def observe (h : Heap) : Value → Heap
  | .object o => h.observeObject o
  | _ => h

/-- A slot is given its dep, and the walk goes on to what stands in it. -/
def observeSlot (onward : Value → Heap → Option Heap) (o : ObjectId) (h : Heap) (key : String) :
    Option Heap :=
  let h := h.installDep o key
  match h.peek o key with
  | some v => onward v h
  | none => some h

/-- The observation of a value, by at most so many nested calls. An object is marked before the walk goes
on, and left alone if it is marked already, so that the walk ends on objects that hold themselves. -/
def observeWalk : Nat → Value → Heap → Option Heap
  | 0, _, _ => none
  | depth + 1, .object o, h =>
    if h.isObserved o then some h
    else
      let marked := h.modifyObject o fun f => { f with observed := true }
      (marked.keys o).foldlM (observeSlot (observeWalk depth) o) marked
  | _ + 1, _, h => some h

/-- The write of a slot, and the dep to be notified of it. Writing a value identical to the old one
is no change. On an observed object a written value is observed, and a new slot has a dep from the
start, which has no subscribers to be notified. -/
def store (h : Heap) (o : ObjectId) (key : String) (v : Value) : Heap × Option DepId :=
  match h.slot? o key with
  | some slot =>
    if slot.value.same v then (h, none)
    else
      let h' := h.putSlot o key ⟨v, slot.dep⟩
      (if h.isObserved o then h'.observe v else h', slot.dep)
  | none =>
    if h.isObserved o then
      let (d, h') := h.newDep
      ((h'.putSlot o key ⟨v, some d⟩).observe v, none)
    else (h.putSlot o key ⟨v, none⟩, none)

end LiveMarkup.Heap
