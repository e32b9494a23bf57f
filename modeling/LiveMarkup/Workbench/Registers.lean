import LiveMarkup.App.Basic

/-!
# Registers

A workbench drives the whole library step by step: values, watchers, deps, surfaces, trees and
instances are kept under names, and scripts write to a log.

* `Registers`: what goes by a name, and the log.
* `Bench`: a stage with registers.
* `Literal`: data as it is written down, with references to named values.
-/

namespace LiveMarkup.Workbench

/-- What goes by a name, and the log. -/
structure Registers where
  values : Table Value
  watchers : Table WatcherId
  /-- Watchers known without being held. -/
  weak : Table WatcherId
  deps : Table DepId
  surfaces : Table SurfaceId
  trees : Table Tree
  apps : Table AppId
  /-- The deps that were shown, in the order of first showing. -/
  shownDeps : List DepId
  /-- The scripted watchers that were ever made, with the names of their scripts. -/
  scripted : List (WatcherId × String)
  log : Array String

def Registers.empty : Registers :=
  ⟨.empty, .empty, .empty, .empty, .empty, .empty, .empty, [], [], #[]⟩

/-- What programs of a workbench work on. -/
abbrev Bench := Stage Registers

def Bench.empty : Bench := ⟨#[], #[], .empty⟩

/-- A stage with its registers changed. -/
def alter (change : Registers → Registers) (b : Bench) : Bench :=
  { b with extra := change b.extra }

def writeLog (line : String) : Bench → Bench :=
  alter fun r => { r with log := r.log.push line }

/-- The name of the script that the active watcher runs. -/
def activeName (s : State Bench) : Option String := s.active.bind fun w => s.host.extra.scripted.lookup w

/-! ## Literals -/

/-- Data as it is written down. -/
inductive Literal where
  | scalar (v : Value)
  | reference (name : String)
  | array (items : List Literal)
  | object (members : List (String × Literal))

namespace Literal

mutual

/-- The draft of a literal; a name that nothing goes by stands for null. -/
def draft (values : Table Value) : Literal → Draft
  | scalar v => .value v
  | reference name => .value ((values.find? name).getD .null)
  | array items => .array (drafts values items)
  | object members => .object (memberDrafts values members)

def drafts (values : Table Value) : List Literal → List Draft
  | [] => []
  | l :: ls => l.draft values :: drafts values ls

def memberDrafts (values : Table Value) : List (String × Literal) → List (String × Draft)
  | [] => []
  | (key, l) :: ms => (key, l.draft values) :: memberDrafts values ms

end

end Literal

end LiveMarkup.Workbench
