import BuildPrune.Discovery
import BuildPrune.Failure
import BuildPrune.Script.Parser

/-!
# BuildPrune.Workspace.Basic

A project in memory: its scripts in parsed form, and the files that look like scripts and are none.
-/

namespace BuildPrune

/-- A script and its path from the root of the project, as that is shown. -/
structure Source where
  path : String
  script : Script

/-- A file that should have been a script. -/
structure BadScript where
  path : String
  failure : ScriptFailure
  deriving Repr

/-- The scripts of a project. -/
structure Workspace where
  /-- The root of the project. -/
  base : RawText
  /-- The dialect in which rules are applied. -/
  dialect : Dialect
  sources : List Source
  failures : List BadScript
  /-- How many scripts were found, good or bad. -/
  discovered : Nat

/-- The script in the content of a file. -/
def readScript (dialect : Dialect) (content : ByteArray) : Except ScriptFailure Script :=
  match String.fromUTF8? content with
  | none => .error .encoding
  | some text =>
    match parse text dialect with
    | .ok script => .ok script
    | .error error => .error (.rejected error)

namespace Workspace

/-- A file that was found and read: its path, with the root of the project in front, and its
content. -/
abbrev FoundFile := RawText × ByteArray

/-- Reads a file that was found. -/
def fetch (disk : Disk) (path : RawText) : Except Failure FoundFile :=
  match disk.read path with
  | .ok content => .ok (path, content)
  | .error _ => .error (.access .read path)

/-- What a file that was found below `base` is. From here on it is known by the path that is shown
for it. -/
def readFound (base : RawText) (file : FoundFile) : Source ⊕ BadScript :=
  let path := Path.relativeTo base file.1
  match readScript (Path.dialect file.1) file.2 with
  | .ok script => .inl ⟨path, script⟩
  | .error failure => .inr ⟨path, failure⟩

/-- The workspace of the files that were found below `base`. -/
def ofFiles (base : RawText) (dialect : Dialect) (files : List FoundFile) : Workspace :=
  let results := files.map (readFound base)
  { base := base
    dialect := dialect
    sources := results.filterMap Sum.getLeft?
    failures := results.filterMap Sum.getRight?
    discovered := files.length }

/-- Reads every script of the project at `base`. A script that is found and cannot be read ends
it. -/
def load (disk : Disk) (base : RawText) : Except Failure Workspace :=
  match disk.discover base with
  | .error (path, trouble) => .error (.walk base path trouble)
  | .ok found => do
    let files ← found.mapM (fetch disk)
    return ofFiles base (disk.projectDialect base) files

end Workspace

end BuildPrune
