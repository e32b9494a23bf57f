import LiveMarkup.App.Operations
import LiveMarkup.Data.Unfold

/-!
# Failures of the command line

* `Failure`: what can go wrong, with the contexts in which it did.
* `Failure.chain`: the messages of a failure, the outermost context first.
* `Failure.report`: the lines that tell of a failure.
-/

namespace LiveMarkup

/-- Why an assignment is refused by the data, or what its render cycle failed with. -/
inductive AssignError where
  /-- A part of the path leads to something other than an object. -/
  | notObject (path : String) (found : Unfolding)
  /-- A part of the path leads nowhere. -/
  | missing (path : String)
  | app (error : AppError)

def AssignError.message : AssignError → String
  | notObject path found => s!"`{path}` is {found.precise}, not an object"
  | missing path => s!"`{path}` does not exist"
  | app error => error.message

/-- Why a command fails. -/
inductive Failure where
  /-- An assignment without an equals sign. -/
  | noEquals (arg : String)
  /-- An assignment whose path has an empty part. -/
  | badPath (path : String)
  /-- A text that is not JSON. -/
  | json
  /-- Instance data that are no object. -/
  | dataNotObject (shown : String)
  | markup (error : MarkupError)
  /-- A template without an element. -/
  | noElement
  | assign (error : AssignError)
  /-- A fault of the machine. -/
  | fault (fault : Fault)
  /-- A file that cannot be read. -/
  | unreadable (name : String)
  /-- A failure while doing what the label says. -/
  | during (label : String) (cause : Failure)

namespace Failure

/-- The messages of a failure, the outermost first. Text that is not JSON and malformed markup
have no message of their own. -/
def chain : Failure → List String
  | noEquals arg => [s!"expected PATH=VALUE, got `{arg}`"]
  | badPath path => [s!"invalid property path `{path}`"]
  | json => []
  | dataNotObject shown => [s!"data must be a JSON object, got `{shown}`"]
  | markup .malformed => []
  | markup error => [error.message]
  | noElement => ["template has no element to mount"]
  | assign error => [error.message]
  | fault (.panicked message) => [message]
  | fault .unfinished => ["watchers keep running"]
  | fault (.unknownName name) => [s!"unknown name {name}"]
  | unreadable name => [s!"failed to read {name}"]
  | during label cause => label :: cause.chain

/-- What went wrong, contexts aside. -/
def root : Failure → Failure
  | during _ cause => cause.root
  | f => f

/-- The outermost message. -/
def message (f : Failure) : String :=
  match f.chain with
  | m :: _ => m
  | [] => match f.root with
    | json => "malformed JSON"
    | _ => "malformed markup"

/-- The lines that report a failure: its outermost message, then what caused it, numbered if there
is more than one cause. -/
def report (f : Failure) : List String :=
  s!"Error: {f.message}" ::
    match f.chain.drop 1 with
    | [] => []
    | [cause] => ["", "Caused by:", "    " ++ cause]
    | causes => "" :: "Caused by:" :: causes.zipIdx.map fun (cause, i) => s!"    {i}: {cause}"

/-- A result whose failures happened while doing what the label says. -/
def label {α : Type} (label : String) (r : Except Failure α) : Except Failure α :=
  r.mapError (.during label)

end Failure

end LiveMarkup
