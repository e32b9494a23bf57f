import LiveMarkup.App.Basic

/-!
# Operations on instances

* `App.make`: a new instance; its data is observed.
* `App.mount`: the first render in the place of a node, from which on writes render again.
* `App.get`, `App.set`: the data of an instance by its first keys.
* `App.takeError`: the error of a render cycle that no write has reported.
-/

namespace LiveMarkup

/-- Where to mount: at the node that a selector names, or at a node. -/
inductive Target where
  | selector (text : String)
  | node (id : NodeId)

namespace App

variable {ε : Type}

/-- The instance with a number; it must be there. -/
def look (id : AppId) : Live (Stage ε) App := do
  match (← Live.host).app? id with
  | some app => return app
  | none => throw (.unknownName s!"instance {id.index}")

def modify (id : AppId) (change : App → App) : Live (Stage ε) Unit := do
  let app ← look id
  Live.tell fun s => s.setApp id (change app)

/-- A new instance of an object, which is observed. -/
def make (surface : SurfaceId) (data : ObjectId) : Live (Stage ε) AppId := do
  Live.edit (.observe (.object data))
  let keys := (← Live.heap).keys data
  let id : AppId := ⟨(← Live.host).apps.size⟩
  Live.tell fun s => { s with apps := s.apps.push (fresh surface data keys) }
  return id

/-- The node of a target and its source, on a surface. -/
def locate (s : Surface) (target : Target) : Except AppError (NodeId × Source) := do
  let id ← match target with
    | .selector text =>
      match s.query text with
      | some id => pure id
      | none => throw (.targetNotFound text)
    | .node id => pure id
  match s.source? id with
  | some source => return (id, source)
  | none => throw (.targetNotFound id.display)

/-- The node of a target and the template that its source makes. -/
def prepare (s : Surface) (target : Target) : Except AppError (NodeId × Tree) := do
  let (id, source) ← locate s target
  match source.compile with
  | .ok template => return (id, template)
  | .error e => throw (.compile e)

/-- Takes the target's own markup as the template, replaces the target by the first render and
starts watching. If the first render fails nothing remains of the attempt. -/
def mount (id : AppId) (target : Target) : Live (Stage ε) (Except AppError Unit) := do
  let app ← look id
  if app.isMounted then return .error .alreadyMounted
  match prepare ((← Live.host).surface app.surface) target with
  | .error e => return .error e
  | .ok (node, template) =>
    modify id fun app => { app with shown := some (.node node) }
    let w ← Live.watch (getter id app.data template)
    match (← look id).lastError with
    | some e =>
      modify id fun app => { app with shown := none, lastError := none }
      Live.release w
      return .error e
    | none =>
      modify id fun app => { app with template := some template, watcher := some w }
      return .ok ()

/-- Whether a key is one that the data had at first. -/
def checkKey (app : App) (key : String) : Except AppError Unit :=
  if key ∈ app.keys then .ok () else .error (.unknownProperty key)

/-- The value of a data property. -/
def get (id : AppId) (key : String) : Live (Stage ε) (Except AppError Value) := do
  let app ← look id
  match app.checkKey key with
  | .error e => return .error e
  | .ok () => return .ok ((← Live.read app.data key).getD .null)

/-- The error of the last render cycle that failed, unless it was handed out before. -/
def takeError (id : AppId) : Live (Stage ε) (Option AppError) := do
  let error := (← look id).lastError
  modify id fun app => { app with lastError := none }
  return error

/-- Writes a data property. The result is the error of the last render cycle that the write caused,
if that one failed; an error of an earlier write is not reported here. -/
def set (id : AppId) (key : String) (v : Value) : Live (Stage ε) (Except AppError Unit) := do
  let app ← look id
  match app.checkKey key with
  | .error e => return .error e
  | .ok () =>
    Live.write app.data key v
    if (← look id).cycles = app.cycles then return .ok ()
    match ← takeError id with
    | some e => return .error e
    | none => return .ok ()

/-- Ends an instance: its watcher is kept no longer. -/
def drop (id : AppId) : Live (Stage ε) Unit := do
  match (← look id).watcher with
  | some w => Live.release w
  | none => return ()

end App

end LiveMarkup
