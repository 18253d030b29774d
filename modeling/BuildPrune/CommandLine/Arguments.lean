import BuildPrune.Script.Dialect
import BuildPrune.Text.Split

/-!
# BuildPrune.CommandLine.Arguments

The arguments of the command: two paths and some options, in any order. They are read from left to
right, and the first that asks for the version or for help, or that cannot be used, decides.
-/

namespace BuildPrune.CommandLine

/-- When differences are coloured. -/
inductive ColourMode
  /-- If the terminal allows it. -/
  | auto
  | always
  | never
  deriving DecidableEq, Repr

/-- The mode of that name. -/
def ColourMode.ofName? : String → Option ColourMode
  | "auto" => some .auto
  | "always" => some .always
  | "never" => some .never
  | _ => none

/-- In which dialect rules are applied. -/
inductive DialectChoice
  /-- In that of the project. -/
  | auto
  | fixed (dialect : Dialect)
  deriving DecidableEq, Repr

/-- The choice of that name. -/
def DialectChoice.ofName? : String → Option DialectChoice
  | "auto" => some .auto
  | name => (Dialect.ofName? name).map .fixed

/-- A complete set of arguments. -/
structure Options where
  /-- The path of the rule file. -/
  recipe : String
  /-- The root of the project. -/
  base : String
  dryRun : Bool
  dialect : DialectChoice
  colour : ColourMode
  /-- How much is logged. -/
  verbosity : Nat
  deriving DecidableEq, Repr

/-- What the arguments ask for. -/
inductive Request
  | run (options : Options)
  | version
  | help
  /-- They make no sense. -/
  | misuse
  deriving DecidableEq, Repr

/-- The arguments read so far. An option that may be given only once is there or not. -/
structure Draft where
  paths : List String := []
  dryRun : Bool := false
  dialect : Option DialectChoice := none
  colour : Option ColourMode := none
  verbosity : Nat := 0

namespace Draft

/-- The request when all arguments have been read. -/
def finish (draft : Draft) : Request :=
  match draft.paths with
  | [recipe, base] =>
    .run {
      recipe := recipe
      base := base
      dryRun := draft.dryRun
      dialect := draft.dialect.getD .auto
      colour := draft.colour.getD .auto
      verbosity := draft.verbosity }
  | _ => .misuse

/-- Adds a path. There are two, and none is empty. -/
def addPath (draft : Draft) (path : String) : Except Request Draft :=
  if path.isEmpty || draft.paths.length ≥ 2 then .error .misuse
  else .ok { draft with paths := draft.paths ++ [path] }

/-- Adds the paths that follow a `--`. -/
def addPaths : Draft → List String → Request
  | draft, [] => draft.finish
  | draft, path :: rest =>
    match draft.addPath path with
    | .ok draft => draft.addPaths rest
    | .error request => request

/-- Adds an option that stands alone. -/
def addFlag (draft : Draft) : String → Except Request Draft
  | "dry-run" => if draft.dryRun then .error .misuse else .ok { draft with dryRun := true }
  | "verbose" => .ok { draft with verbosity := draft.verbosity + 1 }
  | "version" => .error .version
  | "help" => .error .help
  | _ => .error .misuse

/-- The options that take a value. -/
def takesValue (name : String) : Bool :=
  name == "dialect" || name == "color"

/-- Adds an option with its value. -/
def addValue (draft : Draft) (name value : String) : Except Request Draft :=
  match name with
  | "dialect" =>
    match draft.dialect, DialectChoice.ofName? value with
    | none, some choice => .ok { draft with dialect := some choice }
    | _, _ => .error .misuse
  | "color" =>
    match draft.colour, ColourMode.ofName? value with
    | none, some mode => .ok { draft with colour := some mode }
    | _, _ => .error .misuse
  | _ => .error .misuse

/-- Adds the options of an argument with a single dash, one for each letter. -/
def addLetters : Draft → List Char → Except Request Draft
  | draft, [] => .ok draft
  | draft, letter :: rest =>
    match letter with
    | 'v' => addLetters { draft with verbosity := draft.verbosity + 1 } rest
    | 'V' => .error .version
    | 'h' => .error .help
    | _ => .error .misuse

end Draft

/-- The argument is an option and neither a path nor a value. -/
def isOption (argument : String) : Bool :=
  Text.startsWith argument "-" && argument ≠ "-"

/-- The name of an option with two dashes, and the value that is attached to it. -/
def nameAndValue (argument : String) : String × Option String :=
  let name := (argument.toList.drop 2).takeWhile (· ≠ '=')
  match (argument.toList.drop 2).dropWhile (· ≠ '=') with
  | [] => (String.ofList name, none)
  | _ :: value => (String.ofList name, some (String.ofList value))

/-- Reads arguments from left to right. -/
def readArguments : Draft → List String → Request
  | draft, [] => draft.finish
  | draft, argument :: rest =>
    if argument = "--" then draft.addPaths rest
    else if Text.startsWith argument "--" then
      match nameAndValue argument with
      | (name, some value) =>
        match draft.addValue name value with
        | .ok draft => readArguments draft rest
        | .error request => request
      | (name, none) =>
        if Draft.takesValue name then
          match rest with
          | [] => .misuse
          | value :: rest =>
            if isOption value then .misuse
            else
              match draft.addValue name value with
              | .ok draft => readArguments draft rest
              | .error request => request
        else
          match draft.addFlag name with
          | .ok draft => readArguments draft rest
          | .error request => request
    else if isOption argument then
      match draft.addLetters (argument.toList.drop 1) with
      | .ok draft => readArguments draft rest
      | .error request => request
    else
      match draft.addPath argument with
      | .ok draft => readArguments draft rest
      | .error request => request

/-- What some arguments ask for. -/
def Request.ofArguments (arguments : List String) : Request :=
  readArguments {} arguments

end BuildPrune.CommandLine
