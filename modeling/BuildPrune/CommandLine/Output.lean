import BuildPrune.CommandLine.Arguments
import BuildPrune.Diff
import BuildPrune.Workspace.Run

/-!
# BuildPrune.CommandLine.Output

What the command prints: the scripts that could not be read, the differences that a dry run found,
and how many scripts were looked at.
-/

namespace BuildPrune

/-- Where something is printed, a name stands for what is shown of it. -/
instance : Coe RawText String :=
  ⟨RawText.shown⟩

instance : Coe (List RawText) (List String) :=
  ⟨List.map RawText.shown⟩

namespace CommandLine

/-- What the environment says about the terminal. -/
structure Terminal where
  /-- The kind of the terminal, the variable `TERM`. -/
  kind : Option String
  /-- The variable `NO_COLOR` is set, be it to nothing. -/
  refusesColour : Bool
  deriving DecidableEq, Repr

/-- Differences are coloured. -/
def ColourMode.wantsColour (mode : ColourMode) (terminal : Terminal) : Bool :=
  match mode with
  | .always => true
  | .never => false
  | .auto => terminal.kind.any (· ≠ "dumb") && !terminal.refusesColour

/-- A way of writing text. -/
inductive Style
  | plain
  | heading
  | removed
  | added
  deriving DecidableEq, Repr

/-- The control sequence that turns a style on: first everything is turned off. -/
def Style.sequence : Style → String
  | .plain => "\x1b[0m"
  | .heading => "\x1b[0m\x1b[1m\x1b[33m"
  | .removed => "\x1b[0m\x1b[31m"
  | .added => "\x1b[0m\x1b[32m"

/-- Turns a style on, if there are colours at all. -/
def switch (coloured : Bool) (style : Style) : String :=
  if coloured then style.sequence else ""

/-- The characters of a line without the carriage return at its end. -/
def dropReturn (line : List Char) : List Char :=
  if line.getLast? = some '\r' then line.dropLast else line

/-- The lines of a stretch as they are shown. A carriage return at the end of a line is dropped with
the line feed after it; the last line, which has none, keeps it, and is not shown if it is empty. -/
def shownLines : List String → List String
  | [] => []
  | [last] => if last.isEmpty then [] else [last]
  | line :: rest => String.ofList (dropReturn line.toList) :: shownLines rest

/-- Lines, each after a mark and on a line of its own. -/
def marked (mark : String) (lines : List String) : String :=
  String.join ((shownLines lines).map fun line => mark ++ line ++ "\n")

/-- A stretch of a difference. -/
def hunkText (coloured : Bool) : Diff.Hunk → String
  | .same lines => switch coloured .plain ++ marked " " lines
  | .removed lines => switch coloured .removed ++ marked "-" lines
  | .added lines => switch coloured .added ++ marked "+" lines

/-- The difference that a change makes, under the path of the script. -/
def changeText (coloured : Bool) (change : Change) : String :=
  switch coloured .heading ++ "--- " ++ change.path ++ "\n" ++ switch coloured .plain ++
    String.join ((Diff.hunks change.before.print change.after.print).map (hunkText coloured)) ++
    switch coloured .plain

/-- A line for each script that could not be read. -/
def failuresText (workspace : Workspace) : String :=
  String.join (workspace.failures.map fun bad => "Failed to parse: " ++ bad.path ++ "\n")

/-- What is printed at the end of a run. -/
def reportText (options : Options) (terminal : Terminal) (report : Report) : String :=
  let coloured := options.colour.wantsColour terminal
  let changes := if options.dryRun then report.changes else []
  String.join (changes.map (changeText coloured)) ++ "Processed " ++
    Nat.repr report.considered ++ "\n"

/-- The name of the command and its version. -/
def versionText : String :=
  "gradle-scrub 0.1.0\n"

/-- How the command is used. -/
def helpText : String :=
  "Removes unsupported plugins, dependencies and calls from Gradle build scripts.\n\n" ++
  "Usage: gradle-scrub [OPTIONS] <CONFIG> <BASE_DIR>\n\n" ++
  "Arguments:\n" ++
  "  <CONFIG>    The YAML rule file\n" ++
  "  <BASE_DIR>  Root directory of the Gradle project to prune\n\n" ++
  "Options:\n" ++
  "      --dry-run            Show the changes as diffs instead of writing them\n" ++
  "      --dialect <DIALECT>  Dialect the rules are applied in: auto, groovy or kotlin\n" ++
  "  -v, --verbose...         Increase log verbosity\n" ++
  "      --color <COLOR>      When to color diffs: auto, always or never\n" ++
  "  -h, --help               Print help\n" ++
  "  -V, --version            Print version\n"

end CommandLine

end BuildPrune
