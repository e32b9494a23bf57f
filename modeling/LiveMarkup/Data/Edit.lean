import LiveMarkup.Data.Observe

/-!
# Silent changes

The changes of the heap that notify nobody: writes to arrays, observation, new deps and
subscriptions.

* `Heap.Edit`: the changes.
* `Heap.edit`: their effect.
-/

namespace LiveMarkup.Heap

/-- A change that notifies nobody. -/
inductive Edit where
  | push (a : ArrayId) (v : Value)
  | setItem (a : ArrayId) (i : Nat) (v : Value)
  | observe (v : Value)
  | newDep
  | subscribe (d : DepId) (w : WatcherId)

/-- The heap after a silent change. -/
def edit (h : Heap) : Edit → Heap
  | .push a v => h.push a v
  | .setItem a i v => h.setItem a i v
  | .observe v => h.observe v
  | .newDep => h.newDep.2
  | .subscribe d w => h.subscribe d w

end LiveMarkup.Heap
