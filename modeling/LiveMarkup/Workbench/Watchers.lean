import LiveMarkup.Workbench.Script
import LiveMarkup.Workbench.Values

/-!
# Named watchers and deps

* Operations on scripted watchers, strong and weak.
* `DepInfo`: what can be told of a dep, numbered in the order of first showing.
-/

namespace LiveMarkup.Workbench.Desk

def watcherAt (name : String) : Desk WatcherId := named name (·.watchers.find? name)

def depAt (name : String) : Desk DepId := named name (·.deps.find? name)

/-! ## Watchers -/

/-- Makes a scripted watcher. It goes by its name only after its first run. -/
def watch (name : String) (script : List Instruction) : Desk Unit :=
  Live.perform <| nameScript name <|
    .watch (scriptProgram name .done script) fun w => registerWatcher name w .done

def runWatcher (name : String) : Desk Unit := do Live.run (← watcherAt name)

/-- Lets a watcher go; whether there was one. -/
def dropWatcher (name : String) : Desk Bool := do
  match (← registers).watchers.find? name with
  | none => return false
  | some w =>
    alterRegisters fun r => { r with watchers := r.watchers.erase name }
    Live.release w
    return true

/-- The name of the active watcher. -/
def current : Desk (Option String) := do return activeName (← Live.state)

def weaken (watcher name : String) : Desk Unit := do
  let w ← watcherAt watcher
  alterRegisters fun r => { r with weak := r.weak.insert name w }

/-- What a weak name leads to: the runs of the watcher if it lives, and in comparison with a
named watcher whether it is the same and whether it can be reached. -/
def upgrade (weak : String) (watcher : Option String) :
    Desk (Option Nat × Option (Bool × Bool)) := do
  let w ← named weak (·.weak.find? weak)
  let sight := (← get).sight
  let runs := if sight.alive w then some (sight.state.runs w) else none
  match watcher with
  | none => return (runs, none)
  | some name =>
    let w' ← watcherAt name
    return (runs, some (w == w', sight.alive w && w == w'))

def watcherText (name : String) : Desk String := do
  let w ← watcherAt name
  return s!"Watcher \x7b id: _, runs: {(← Live.state).runs w} \x7d"

/-! ## Deps -/

/-- What can be told of a dep. -/
structure DepInfo where
  number : Nat
  live : Nat
  /-- The named watchers among the subscribers, sorted. -/
  names : List String
  text : String

/-- Texts in increasing order. -/
def sorted (names : List String) : List String := names.mergeSort fun a b => !decide (b < a)

/-- What can be told of a dep, which is numbered if it was not shown before. -/
def showDep (d : DepId) : Desk DepInfo := do
  let r ← registers
  let shown := if d ∈ r.shownDeps then r.shownDeps else r.shownDeps ++ [d]
  alterRegisters fun r => { r with shownDeps := shown }
  let live := (← Live.subscribers d).length
  let subscribed := (← Live.heap).subscribers d
  let names := (r.watchers.entries.filter fun e => subscribed.contains e.2).map (·.1)
  return ⟨shown.idxOf d, live, sorted names, s!"Dep \x7b id: _, subscribers: {live} \x7d"⟩

def newDep (name : String) : Desk Unit := do
  let d : DepId := ⟨(← Live.heap).deps.size⟩
  Live.edit .newDep
  alterRegisters fun r => { r with deps := r.deps.insert name d }

/-- The dep of a slot, kept under a name if one is given. -/
def slotDep (name : Option String) (object key : String) : Desk (Option DepInfo) := do
  let o ← objectAt object
  match (← Live.heap).dep? o key with
  | none => return none
  | some d =>
    match name with
    | some name => alterRegisters fun r => { r with deps := r.deps.insert name d }
    | none => pure ()
    return some (← showDep d)

def depInfo (dep : String) : Desk DepInfo := do showDep (← depAt dep)

def addSubscriber (dep watcher : String) : Desk Unit := do
  Live.edit (.subscribe (← depAt dep) (← watcherAt watcher))

/-- Subscribes the active watcher, if there is one. -/
def depend (dep : String) : Desk Unit := do
  let d ← depAt dep
  match (← Live.state).active with
  | some w => Live.edit (.subscribe d w)
  | none => return ()

def notify (dep : String) : Desk Unit := do Live.notify (← depAt dep)

/-! ## What is left after a step -/

/-- The lines logged since the last time. -/
def takeLog : Desk (List String) := do
  let log := (← registers).log
  alterRegisters fun r => { r with log := #[] }
  return log.toList

/-- A table in the order of its names. -/
def byName {α : Type} (t : Table α) : List (String × α) :=
  t.entries.mergeSort fun a b => !decide (b.1 < a.1)

/-- The named watchers with their runs and whether they are running. -/
def watcherStates : Desk (List (String × Nat × Bool)) := do
  let s ← Live.state
  return (byName (← registers).watchers).map fun e => (e.1, s.runs e.2, s.isRunning e.2)

end LiveMarkup.Workbench.Desk
