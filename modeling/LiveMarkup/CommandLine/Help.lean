/-!
# Help pages

* `Topic`: what a help page can be about, and `Topic.narrow`, the topic inside it of a given name.
* `Topic.page`: the lines of a help page, with every list of terms set in two columns.
-/

namespace LiveMarkup

/-- The two commands. -/
inductive Command where
  | check
  | render
  deriving DecidableEq, Repr

/-- What a help page is about. -/
inductive Topic where
  | program
  | command (command : Command)
  /-- The command that shows help pages. -/
  | help
  deriving DecidableEq, Repr

/-- A term with what it means. -/
structure Entry where
  term : String
  meaning : String

namespace Topic

/-- The topic of a given name inside another one; only the program has topics inside. -/
def narrow : Topic → String → Option Topic
  | program, "render" => some (command .render)
  | program, "check" => some (command .check)
  | program, "help" => some help
  | _, _ => none

/-- One sentence on a topic. -/
def summary : Topic → String
  | program => "Render reactive templates"
  | command .render => "Mount a template against JSON data and print the rendered HTML"
  | command .check => "Parse and compile a template, listing its placeholders"
  | help => "Print this message or the help of the given subcommand(s)"

/-- The form of an invocation. -/
def usage : Topic → String
  | program => "Usage: vireo [OPTIONS] <COMMAND>"
  | command .render => "Usage: vireo render [OPTIONS] <TEMPLATE>"
  | command .check => "Usage: vireo check [OPTIONS] <TEMPLATE>"
  | help => "Usage: vireo help [COMMAND]..."

/-! ## Terms -/

def commands : List Entry :=
  [⟨"render", (command .render).summary⟩, ⟨"check", (command .check).summary⟩,
    ⟨"help", help.summary⟩]

def template : Entry := ⟨"<TEMPLATE>", "Path to an HTML template"⟩

def verbose : Entry :=
  ⟨"-v, --verbose...", "More log output (-v info, -vv debug, -vvv trace). RUST_LOG wins"⟩

def helpFlag : Entry := ⟨"-h, --help", "Print help"⟩

/-- The lists of terms on a page, each under its heading. Options of the same rank are listed by
name, and the option that all commands share has the rank of the first. -/
def lists : Topic → List (String × List Entry)
  | program =>
    [("Commands:", commands),
      ("Options:", [verbose, helpFlag, ⟨"-V, --version", "Print version"⟩])]
  | command .render =>
    [("Arguments:", [template]),
      ("Options:",
        [⟨"    --data <DATA>", "JSON file holding the instance data (an object)"⟩, verbose,
          ⟨"    --el <EL>", "Mount selector (#id, .class or tag); defaults to the first element"⟩,
          ⟨"    --set <PATH=JSON>", "Mutation applied after mounting, PATH=JSON; repeatable"⟩,
          helpFlag])]
  | command .check => [("Arguments:", [template]), ("Options:", [verbose, helpFlag])]
  | help => [("Arguments:", [⟨"[COMMAND]...", "Print help for the subcommand(s)"⟩])]

/-! ## Pages -/

/-- A list of terms in two columns, the second one two blanks after the longest term. -/
def columns (entries : List Entry) : List String :=
  let width := entries.foldl (fun w e => max w e.term.length) 0
  entries.map fun e => "  " ++ String.ofList (e.term.toList.rightpad width ' ') ++ "  " ++ e.meaning

/-- The lines of the page on a topic. -/
def page (t : Topic) : List String :=
  [t.summary, "", t.usage] ++
    t.lists.flatMap fun (heading, entries) => "" :: heading :: columns entries

end Topic

end LiveMarkup
