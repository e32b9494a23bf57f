import LiveMarkup.CommandLine.Assignment
import LiveMarkup.Workbench.Surfaces

/-!
# Named instances

* Operations on named instances.
* `AppState`: what can be told of an instance after a step.
-/

namespace LiveMarkup.Workbench.Desk

def appAt (name : String) : Desk AppId := named name (·.apps.find? name)

/-- Puts an instance under a name; one that had the name before ends. -/
def keepApp (name : String) (id : AppId) : Desk Unit := do
  let old := (← registers).apps.find? name
  alterRegisters fun r => { r with apps := r.apps.insert name id }
  match old with
  | some old => App.drop old
  | none => return ()

/-- The object that a literal stands for. -/
def objectOf (l : Literal) : Desk ObjectId := do
  match (← value l).object? with
  | some o => return o
  | none => throw (.unknownName "object")

def makeApp (name surfaceName : String) (data : Literal) : Desk Unit := do
  let id ← App.make (← surfaceAt surfaceName) (← objectOf data)
  keepApp name id

/-- A new instance that is mounted at once if a selector is given. If that fails there is none. -/
def makeAppWith (name surfaceName : String) (data : Literal) (selector : Option String) :
    Desk (Except AppError Unit) := do
  let id ← App.make (← surfaceAt surfaceName) (← objectOf data)
  match selector with
  | none =>
    keepApp name id
    return .ok ()
  | some text =>
    match ← App.mount id (.selector text) with
    | .ok () =>
      keepApp name id
      return .ok ()
    | .error e => return .error e

def mount (name : String) (target : Target) : Desk (Except AppError Unit) := do
  App.mount (← appAt name) target

def getProperty (name key : String) : Desk (Except AppError Brief) := do
  match ← App.get (← appAt name) key with
  | .ok v => return .ok (← brief v)
  | .error e => return .error e

def setProperty (name key : String) (l : Literal) : Desk (Except AppError Unit) := do
  let id ← appAt name
  App.set id key (← value l)

def takeError (name : String) : Desk (Option AppError) := do App.takeError (← appAt name)

/-- Parses an assignment and performs it on an instance. -/
def assign [Json.Rounding] (name arg : String) : Desk (Except Failure Unit) := do
  let id ← appAt name
  match Assignment.parse arg with
  | .error f => return .error f
  | .ok a => return (← a.perform id).mapError .assign

/-- What an instance holds. -/
structure AppInfo where
  keys : List String
  data : Unfolding
  template : Option Tree
  tree : Option Tree
  html : String

def appInfo (name : String) : Desk AppInfo := do
  let app ← App.look (← appAt name)
  return ⟨app.keys, (← Live.heap).unfold (.object app.data), app.template, app.tree?,
    ((← Live.host).surface app.surface).html⟩

def dropApp (name : String) : Desk Unit := do
  let id ← appAt name
  alterRegisters fun r => { r with apps := r.apps.erase name }
  App.drop id

/-- What can be told of an instance after a step. -/
structure AppState where
  name : String
  mounted : Bool
  renders : Nat
  handle : Option NodeId
  report : PatchReport
  runs : Option Nat

/-- The named instances in the order of their names. -/
def appStates : Desk (List AppState) := do
  let s ← Live.state
  let entries := s.host.extra.apps.entries.mergeSort fun x y => !decide (y.1 < x.1)
  entries.mapM fun e => do
    let app ← App.look e.2
    return ⟨e.1, app.isMounted, app.renders, app.handle, app.lastReport, app.watcher.map s.runs⟩

end LiveMarkup.Workbench.Desk
