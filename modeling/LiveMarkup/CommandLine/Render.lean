import LiveMarkup.CommandLine.Assignment

/-!
# Rendering and checking templates

* `RenderRequest.run`: the markup of a document after the first render of a template, and after
  each assignment.
* `checkTemplate`: the placeholders of a template.
-/

namespace LiveMarkup

/-- A template with data, the selector of the element to mount, and assignments to apply. -/
structure RenderRequest where
  markup : String
  /-- The members of the instance data. -/
  data : List (String × Draft)
  /-- The first element of the document if absent. -/
  selector : Option String
  assignments : List Assignment

/-- The first element at the top of a document. -/
def Surface.firstElement (s : Surface) : Option NodeId :=
  (s.children root).find? fun id => (s.tag? id).isSome

namespace RenderRequest

/-- Applies assignments one by one; the markup of the document after each. -/
def assignAll (app : AppId) (surface : SurfaceId) :
    List Assignment → Live (Stage Unit) (Except Failure (List String))
  | [] => return .ok []
  | a :: rest => do
    match ← a.perform app with
    | .error e => return .error (.during s!"failed to apply `{a.path}`" (.assign e))
    | .ok () =>
      let html := ((← Live.host).surface surface).html
      match ← assignAll app surface rest with
      | .error f => return .error f
      | .ok snapshots => return .ok (html :: snapshots)

/-- The target of a request on a surface. -/
def target (r : RenderRequest) (s : Surface) : Except Failure Target :=
  match r.selector with
  | some text => .ok (.selector text)
  | none =>
    match s.firstElement with
    | some id => .ok (.node id)
    | none => .error .noElement

/-- Mounts the template and applies the assignments. -/
def session (r : RenderRequest) (s : Surface) (data : ObjectId) :
    Live (Stage Unit) (Except Failure (List String)) := do
  let surface : SurfaceId := ⟨0⟩
  let app ← App.make surface data
  match r.target s with
  | .error f => return .error f
  | .ok target =>
    match ← App.mount app target with
    | .error e => return .error (.assign (.app e))
    | .ok () =>
      let html := ((← Live.host).surface surface).html
      match ← assignAll app surface r.assignments with
      | .error f => return .error f
      | .ok snapshots => return .ok (html :: snapshots)

/-- The markup of the document after the first render and after every assignment. -/
def run (r : RenderRequest) : Except Failure (List String) := do
  let s ← Failure.label "failed to parse template"
    ((Surface.ofMarkup r.markup).mapError Failure.markup)
  let (data, heap) := Heap.empty.buildObject r.data
  let machine := Machine.start (⟨#[s], #[], ()⟩ : Stage Unit)
  match EStateM.run (r.session s data) (machine.withHeap heap) with
  | .ok result _ => result
  | .error e _ => .error (.fault e)

end RenderRequest

/-- The placeholders of the template that a markup text spells, in document order. -/
def checkTemplate (markup : String) : Except Failure (List String) := do
  let root ← Failure.label "failed to parse template"
    ((Source.parseRoot markup).mapError Failure.markup)
  match root.compile with
  | .ok template => return template.placeholders
  | .error e => .error (.assign (.app (.compile e)))

end LiveMarkup
