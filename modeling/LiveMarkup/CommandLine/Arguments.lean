import LiveMarkup.CommandLine.Help

/-!
# Arguments

What the arguments of a command line ask for. Options may stand anywhere after the command; a value
follows its option as the next argument or after an equals sign; two dashes end the options.

* `Invocation.parse`: the invocation that a list of arguments spells, or nothing if they spell none.
-/

namespace LiveMarkup

/-- What is asked for. -/
inductive Invocation where
  | version
  | help (topic : Topic)
  | check (template : String)
  | render (template : String) (data selector : Option String) (sets : List String)
  deriving DecidableEq, Repr

namespace Invocation

/-- The options and other arguments of a command so far. -/
structure Given where
  template : Option String
  data : Option String
  selector : Option String
  sets : List String

/-- What a group of one-letter flags asks for: nothing but more output, or to stop and show
something. -/
inductive Flags where
  | verbose
  | stop (shown : Invocation)

/-- The meaning of the letters after a single dash among the arguments of the program or of a
command. The first letter that stops decides, and only the program shows its version. -/
def flags (topic : Topic) : List Char → Option Flags
  | [] => some .verbose
  | 'v' :: cs => flags topic cs
  | 'h' :: _ => some (.stop (.help topic))
  | 'V' :: _ => if topic = .program then some (.stop .version) else none
  | _ => none

/-- Whether an argument has the form of an option; a single dash is a value. -/
def isOption (arg : String) : Bool :=
  match arg.toList with
  | '-' :: _ :: _ => true
  | _ => false

/-- The text after an option name and an equals sign. -/
def attached? (name arg : String) : Option String :=
  let mark := name.toList ++ ['=']
  if mark.isPrefixOf arg.toList then some (String.ofList (arg.toList.drop mark.length)) else none

/-- One more argument that is no option. -/
def Given.positional (g : Given) (arg : String) : Option Given :=
  if arg.isEmpty || g.template.isSome then none else some { g with template := some arg }

/-- The value of the option for data: given once, and not empty. -/
def Given.setData (g : Given) (value : String) : Option Given :=
  if value.isEmpty || g.data.isSome then none else some { g with data := some value }

/-- The value of the option for a selector: given once. -/
def Given.setSelector (g : Given) (value : String) : Option Given :=
  if g.selector.isSome then none else some { g with selector := some value }

def Given.addSet (g : Given) (value : String) : Option Given :=
  some { g with sets := g.sets ++ [value] }

/-- The option with a value that an argument names, and the value if it is attached. -/
def valued (arg : String) : Option ((Given → String → Option Given) × Option String) :=
  let options : List (String × (Given → String → Option Given)) :=
    [("--data", Given.setData), ("--el", Given.setSelector), ("--set", Given.addSet)]
  options.findSome? fun (name, write) =>
    if arg = name then some (write, none)
    else (attached? name arg).map fun value => (write, some value)

/-- The invocation of a command with all its arguments. -/
def finish (command : Command) (g : Given) : Option Invocation :=
  g.template.map fun template =>
    match command with
    | .check => .check template
    | .render => .render template g.data g.selector g.sets

/-- The arguments of a command, after those already given. -/
def arguments (command : Command) (g : Given) : List String → Option Invocation
  | [] => finish command g
  | "--" :: rest => do finish command (← rest.foldlM Given.positional g)
  | "--help" :: _ => some (.help (.command command))
  | "--verbose" :: rest => arguments command g rest
  | arg :: rest =>
    if !isOption arg then do arguments command (← g.positional arg) rest
    else if command = .render ∧ (valued arg).isSome then
      match valued arg, rest with
      | some (write, some value), rest => do arguments command (← write g value) rest
      | some (write, none), value :: rest =>
        if isOption value then none else do arguments command (← write g value) rest
      | _, _ => none
    else
      match flags (.command command) (arg.toList.drop 1) with
      | some .verbose => arguments command g rest
      | some (.stop shown) => some shown
      | none => none

/-- The invocation that a list of arguments spells. The words after `help` lead to a topic, and none
of them is an option. -/
def parse : List String → Option Invocation
  | "render" :: rest => arguments .render ⟨none, none, none, []⟩ rest
  | "check" :: rest => arguments .check ⟨none, none, none, []⟩ rest
  | "help" :: names => (names.foldlM Topic.narrow .program).map help
  | "--help" :: _ => some (.help .program)
  | "--version" :: _ => some .version
  | "--verbose" :: rest => parse rest
  | arg :: rest =>
    if isOption arg then
      match flags .program (arg.toList.drop 1) with
      | some .verbose => parse rest
      | some (.stop shown) => some shown
      | none => none
    else none
  | [] => none

end Invocation

end LiveMarkup
