import LiveMarkup.Data.Equality
import LiveMarkup.Workbench.Registers

/-!
# Scripts

What a scripted watcher does when it runs: instructions from top to bottom, each a small program.
An instruction on a name that nothing goes by has no effect.

* `Instruction`: the instructions.
* `Instruction.program`, `scriptProgram`: the program of an instruction, of a script.
-/

namespace LiveMarkup.Workbench

/-- An instruction of a script. -/
inductive Instruction where
  /-- A tracked read, logged. -/
  | read (object key : String)
  /-- An untracked read, logged. -/
  | peek (object key : String)
  /-- The value at a path, logged. -/
  | path (object path : String)
  /-- A text bound to an object, logged. -/
  | text (object text : String)
  | write (object key : String) (value : Literal)
  /-- A tracked read of a number, and a write of the next one if it is below the limit. -/
  | increment (object key : String) (limit : Number)
  | copy (object key target targetKey : String)
  /-- One of two scripts, by whether a slot equals a value. -/
  | ifEqual (object key : String) (value : Literal) (yes no : List Instruction)
  /-- One of two scripts, by whether this is the run with a number. -/
  | ifRun (number : Nat) (yes no : List Instruction)
  | push (array : String) (value : Literal)
  | watch (name : String) (script : List Instruction)
  | drop (name : String)
  | run (name : String)
  /-- The condition of a watcher, logged. -/
  | status (name : String)
  /-- The active watcher, logged. -/
  | current
  | depend (dep : String)
  | notify (dep : String)
  /-- The number of live subscribers, logged. -/
  | subscribers (dep : String)
  | log (text : String)
  | panic (message : String)

abbrev BenchProgram := Program Bench

/-- A program that needs what goes by a name; without it only the rest is done. -/
def withNamed {α : Type} (find? : Registers → Option α) (next : BenchProgram)
    (use : α → BenchProgram) : BenchProgram :=
  .look fun s =>
    match find? s.state.host.extra with
    | some a => use a
    | none => next

def objectNamed (name : String) (r : Registers) : Option ObjectId :=
  (r.values.find? name).bind Value.object?

def arrayNamed (name : String) (r : Registers) : Option ArrayId :=
  (r.values.find? name).bind Value.array?

/-- A line of the log of a watcher. -/
def logLine (me text : String) (next : BenchProgram) : BenchProgram :=
  .tell (writeLog (me ++ ": " ++ text)) next

/-- The text of a value that may be missing. -/
def displayOption (h : Heap) : Option Value → String
  | some v => h.display v
  | none => "-"

/-- Lays a literal out and goes on with its value. -/
def makeLiteral (l : Literal) (next : Value → BenchProgram) : BenchProgram :=
  .look fun s => .make (l.draft s.state.host.extra.values) next

/-- Puts down the name of the script whose watcher is made next. -/
def nameScript (name : String) (next : BenchProgram) : BenchProgram :=
  .look fun s =>
    .tell (alter fun r => { r with scripted := (⟨s.state.watchers.size⟩, name) :: r.scripted }) next

/-- Puts a watcher under a name; one that had the name before is let go afterwards. -/
def registerWatcher (name : String) (w : WatcherId) (next : BenchProgram) : BenchProgram :=
  .look fun s =>
    .tell (alter fun r => { r with watchers := r.watchers.insert name w }) <|
      match s.state.host.extra.watchers.find? name with
      | some old => .release old next
      | none => next

/-- The outcome of binding as a line of the log. -/
def bindLine (show? : α → String) : Except Template.BindError α → String
  | .ok a => show? a
  | .error e => e.message

mutual

/-- The program of an instruction of the watcher `me`, and then the rest. -/
def Instruction.program (me : String) (next : BenchProgram) : Instruction → BenchProgram
  | .read object key =>
    withNamed (objectNamed object) next fun o =>
      .read (fun _ => [⟨o, key⟩]) fun h =>
        logLine me (key ++ "=" ++ displayOption h (h.peek o key)) next
  | .peek object key =>
    withNamed (objectNamed object) next fun o =>
      .look fun s =>
        logLine me (key ++ "~" ++ displayOption s.state.heap (s.state.heap.peek o key)) next
  | .path object path =>
    withNamed (objectNamed object) next fun o =>
      .read (fun h => (Template.resolve h o path).reads) fun h =>
        logLine me (bindLine h.display (Template.resolve h o path).result) next
  | .text object text =>
    withNamed (objectNamed object) next fun o =>
      .readTraced (fun h => Template.interpolate h o text) fun result =>
        logLine me (bindLine (fun t => t) result) next
  | .write object key value =>
    withNamed (objectNamed object) next fun o =>
      makeLiteral value fun v => .write o key v next
  | .increment object key limit =>
    withNamed (objectNamed object) next fun o =>
      .get o key fun found =>
        let n := (found.bind Value.number?).getD (.zero false)
        logLine me (key ++ "=" ++ n.plain) <|
          if n.less limit then .write o key (.number (n + .ofNat 1)) next else next
  | .copy object key target targetKey =>
    withNamed (objectNamed object) next fun o =>
      withNamed (objectNamed target) next fun o' =>
        .get o key fun found => .write o' targetKey (found.getD .null) next
  | .ifEqual object key value yes no =>
    withNamed (objectNamed object) next fun o =>
      .get o key fun found =>
        makeLiteral value fun v =>
          .look fun s =>
            if s.state.heap.equal (found.getD .null) v then scriptProgram me next yes
            else scriptProgram me next no
  | .ifRun number yes no =>
    .look fun s =>
      if s.state.active.map s.state.runs = some number then scriptProgram me next yes
      else scriptProgram me next no
  | .push array value =>
    withNamed (arrayNamed array) next fun a =>
      makeLiteral value fun v => .edit (.push a v) next
  | .watch name script =>
    nameScript name (.watch (scriptProgram name .done script) fun w => registerWatcher name w next)
  | .drop name =>
    withNamed (·.watchers.find? name) next fun w =>
      .tell (alter fun r => { r with watchers := r.watchers.erase name }) (.release w next)
  | .run name => withNamed (·.watchers.find? name) next fun w => .run w next
  | .status name =>
    withNamed (·.watchers.find? name) next fun w =>
      .look fun s =>
        logLine me (s!"running {s.state.runs w} {s.state.isRunning w}") next
  | .current => .look fun s => logLine me ("current " ++ (activeName s.state).getD "-") next
  | .depend dep =>
    withNamed (·.deps.find? dep) next fun d =>
      .look fun s =>
        match s.state.active with
        | some w => .edit (.subscribe d w) next
        | none => next
  | .notify dep => withNamed (·.deps.find? dep) next fun d => .notify d next
  | .subscribers dep =>
    withNamed (·.deps.find? dep) next fun d =>
      .look fun s => logLine me (s!"subs {(s.subscribers d).length}") next
  | .log text => logLine me text next
  | .panic message => .panic message

/-- The program of a script of the watcher `me`, and then the rest. -/
def scriptProgram (me : String) (next : BenchProgram) : List Instruction → BenchProgram
  | [] => next
  | i :: is => Instruction.program me (scriptProgram me next is) i

end

end LiveMarkup.Workbench
