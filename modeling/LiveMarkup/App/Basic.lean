import LiveMarkup.Patch
import LiveMarkup.Surface.Html
import LiveMarkup.Surface.Load
import LiveMarkup.Surface.Select
import LiveMarkup.Reactive.Live
import LiveMarkup.Template.Bind
import LiveMarkup.Tree.Compile

/-!
# Instances

An instance ties data, a template and a surface together: one watcher binds the template and
patches the surface whenever a slot that the template reads changes.

* `Stage`: the surfaces and instances that programs work on.
* `App.cycle`: what a render cycle does once the template is bound.
* `App.getter`: what the watcher of an instance runs.
-/

namespace LiveMarkup

open Template (BindError)

/-- The number of a surface on a stage. -/
structure SurfaceId where
  index : Nat
  deriving DecidableEq, Repr

/-- The number of an instance on a stage. -/
structure AppId where
  index : Nat
  deriving DecidableEq, Repr

/-- How an operation on an instance fails. -/
inductive AppError where
  /-- The mount target is not on the surface, or is no source node. -/
  | targetNotFound (target : String)
  | alreadyMounted
  | notMounted
  /-- The key is none that the data had at first. -/
  | unknownProperty (key : String)
  | compile (error : CompileError)
  | bind (error : BindError)
  | patch (error : PatchError)
  deriving DecidableEq, Repr

def AppError.message : AppError → String
  | targetNotFound target => s!"mount target `{target}` not found"
  | alreadyMounted => "instance is already mounted"
  | notMounted => "instance is not mounted"
  | unknownProperty key => s!"`{key}` is not a data property of this instance"
  | compile error => error.message
  | bind error => error.message
  | patch error => error.message

/-- An instance. -/
structure App where
  surface : SurfaceId
  data : ObjectId
  /-- The keys of the data when the instance was made. -/
  keys : List String
  template : Option Tree
  watcher : Option WatcherId
  /-- What the surface shows for this instance. -/
  shown : Option Shown
  /-- The error of the last render cycle that failed, until it is handed out. -/
  lastError : Option AppError
  /-- The work done by the last render cycle that succeeded. -/
  lastReport : PatchReport
  /-- The number of render cycles that succeeded. -/
  renders : Nat
  /-- The number of render cycles. -/
  cycles : Nat

/-- Surfaces, instances, and whatever else a host has. -/
structure Stage (ε : Type) where
  surfaces : Array Surface
  apps : Array App
  extra : ε

namespace Stage

variable {ε : Type}

def app? (s : Stage ε) (id : AppId) : Option App := s.apps[id.index]?

def surface (s : Stage ε) (id : SurfaceId) : Surface := s.surfaces[id.index]?.getD .empty

def setApp (s : Stage ε) (id : AppId) (app : App) : Stage ε :=
  { s with apps := s.apps.modify id.index fun _ => app }

def setSurface (s : Stage ε) (id : SurfaceId) (surface : Surface) : Stage ε :=
  { s with surfaces := s.surfaces.modify id.index fun _ => surface }

end Stage

namespace App

/-- An instance of some data on a surface; nothing is rendered yet. -/
def fresh (surface : SurfaceId) (data : ObjectId) (keys : List String) : App :=
  ⟨surface, data, keys, none, none, none, none, .none, 0, 0⟩

def isMounted (app : App) : Bool := app.watcher.isSome

/-- The tree of the last render. -/
def tree? (app : App) : Option Tree :=
  match app.shown with
  | some (.tree t) => some t
  | _ => none

/-- The surface node that shows the root of the template. -/
def handle (app : App) : Option NodeId :=
  match app.shown with
  | some (.tree t) => t.handle
  | some (.node id) => some id
  | none => none

/-- The instance after a render cycle that failed. -/
def failed (app : App) (error : AppError) : App :=
  { app with lastError := some error, cycles := app.cycles + 1 }

/-- The instance after a render cycle that succeeded. -/
def rendered (app : App) (tree : Tree) (report : PatchReport) : App :=
  { app with
    shown := some (.tree tree)
    lastError := none
    lastReport := report
    renders := app.renders + 1
    cycles := app.cycles + 1 }

/-- A render cycle: an instance and its surface after the template was bound. A cycle that fails
leaves what is shown as it was. -/
def cycle (app : App) (surface : Surface) (bound : Except BindError Tree) : App × Surface :=
  match bound with
  | .error e => (app.failed (.bind e), surface)
  | .ok tree =>
    match app.shown with
    | none => (app.failed .notMounted, surface)
    | some shown =>
      let result := (Patch.start surface).run shown tree
      match result.error with
      | some e => (app.failed (.patch e), result.patch.surface)
      | none => (app.rendered result.tree result.patch.report, result.patch.surface)

end App

/-- The stage after a render cycle of an instance. -/
def Stage.cycle {ε : Type} (s : Stage ε) (id : AppId) (bound : Except BindError Tree) : Stage ε :=
  match s.app? id with
  | none => s
  | some app =>
    let (app', surface) := app.cycle (s.surface app.surface) bound
    (s.setSurface app.surface surface).setApp id app'

namespace App

variable {ε : Type}

/-- What the watcher of an instance runs: the template is bound, which subscribes the watcher to all
it reads, and then rendered. -/
def getter (id : AppId) (data : ObjectId) (template : Tree) : Program (Stage ε) :=
  .readTraced (fun h => template.bind h data) fun bound =>
    .tell (fun stage => stage.cycle id bound) .done

end App

end LiveMarkup
