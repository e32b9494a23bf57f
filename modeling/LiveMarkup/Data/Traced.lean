import LiveMarkup.Data.Heap

/-!
# Tracked reading

* `Place`: a named place of an object.
* `Traced`: a result together with the places that were read for it.
* `Heap.track`: the subscription of a watcher to all places that it read.
-/

namespace LiveMarkup

/-- A named place of an object, whether the object has a slot there or not. -/
structure Place where
  object : ObjectId
  key : String
  deriving DecidableEq, Repr

/-- A result, and the places that were read on the way, in order. -/
structure Traced (α : Type) where
  reads : List Place
  result : α

namespace Heap

/-- The dep of a place, if there is a slot that has one. -/
def depAt? (h : Heap) (p : Place) : Option DepId := h.dep? p.object p.key

/-- The value at a place, if there is a slot. -/
def valueAt? (h : Heap) (p : Place) : Option Value := h.peek p.object p.key

/-- The heap with a watcher subscribed to the dep of each place, where there is one. -/
def track (h : Heap) (w : WatcherId) : List Place → Heap
  | [] => h
  | p :: ps =>
    match h.depAt? p with
    | some d => (h.subscribe d w).track w ps
    | none => h.track w ps

end Heap

end LiveMarkup
