import LiveMarkup.CommandLine.Arguments
import LiveMarkup.CommandLine.Render

/-!
# Carrying out an invocation

* `Invocation.files`: the files that an invocation may read.
* `Invocation.perform`: what an invocation writes, and how it ends, given what those files hold.
-/

namespace LiveMarkup

namespace Invocation

variable [Json.Rounding]

/-- The name of the program with its version. -/
def versionText : String := "vireo 0.1.1"

/-- The files that an invocation may read. -/
def files : Invocation → List String
  | render template data .. => template :: data.toList
  | check template => [template]
  | _ => []

/-- The content of a file. -/
def open? (contents : String → Option String) (name : String) : Except Failure String :=
  match contents name with
  | some text => .ok text
  | none => .error (.unreadable name)

/-- The members of the data in a file; without a file there are none. -/
def dataOf (contents : String → Option String) :
    Option String → Except Failure (List (String × Draft))
  | none => .ok []
  | some name => do
    let text ← open? contents name
    Failure.label s!"in {name}" (parseData text)

/-- The snapshots of a document, each after the first below the path that was set. -/
def writeSnapshots (paths : List String) : List String → List String
  | [] => []
  | first :: rest =>
    first :: (paths.zip rest).flatMap fun (path, html) => [s!"--- set {path}", html]

/-- The lines that an invocation writes. -/
def perform (contents : String → Option String) : Invocation → Except Failure (List String)
  | version => .ok [versionText]
  | help topic => .ok topic.page
  | check template => do checkTemplate (← open? contents template)
  | render template data selector sets => do
    let markup ← open? contents template
    let members ← dataOf contents data
    let assignments ← sets.mapM Assignment.parse
    let snapshots ← RenderRequest.run ⟨markup, members, selector, assignments⟩
    return writeSnapshots (assignments.map (·.path)) snapshots

end Invocation

end LiveMarkup
