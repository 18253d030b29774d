import BuildPrune.Disk.Lookup
import BuildPrune.Sorting

/-!
# BuildPrune.Discovery

The build scripts below a directory: the regular files with the name of a script. The directory is
searched from the top down, without the stores of version control systems and the caches in it.
Links are not followed, apart from the directory itself. Scripts come in the order of their paths,
compared step by step, so that `a/x` comes before `a-b`.
-/

namespace BuildPrune

/-- The kinds of things that are told apart in a directory. -/
inductive Kind
  | file
  | link
  | directory
  deriving DecidableEq, Repr

/-- Something that a search comes upon. -/
structure Found where
  path : RawText
  kind : Kind
  deriving DecidableEq, Repr

/-- The directories that are never searched. -/
def skippedDirectories : List String := [".git", ".gradle"]

/-- A search passes over this. A directory whose name is no text is not skipped. -/
def Found.isSkipped (found : Found) : Bool :=
  found.kind = .directory &&
    ((Path.fileName? found.path).bind RawText.text?).any skippedDirectories.contains

/-- This is a build script. -/
def Found.isScript (found : Found) : Bool :=
  found.kind = .file && Path.isBuildScript found.path

/-- The paths of the scripts among what was found, in order. -/
def scriptPaths (found : List Found) : List RawText :=
  sortBy (fun path other => !decide (Path.Before other path))
    ((found.filter Found.isScript).map Found.path)

namespace Disk

/-- The kind of an entry. -/
def Entry.kind : Entry → Kind
  | .file _ => .file
  | .link _ => .link
  | .directory => .directory

/-- The names in a directory, and what they are the names of. -/
def children (disk : Disk) (directory : Location) : List (RawText × Kind) :=
  disk.entries.filterMap fun entry =>
    match dropNames? directory entry.1 with
    | some [name] => some (name, entry.2.kind)
    | _ => none

/-- The names in the directory to which a path leads. -/
def readDirectory (disk : Disk) (path : RawText) : Except Trouble (List (RawText × Kind)) :=
  match disk.spot true path with
  | .error trouble => .error trouble
  | .ok (.taken place .directory) => .ok (disk.children place)
  | .ok (.taken _ _) => .error .notADirectory
  | .ok (.free _) => .error .notFound

/-- A directory that could not be searched, and why. -/
abbrev Obstacle := RawText × Trouble

/-- What is found in the directory at `path` and below it, as deep as `levels` says, without what is
skipped. A directory comes before what is in it. -/
def search (disk : Disk) : (levels : Nat) → (path : RawText) → Except Obstacle (List Found)
  | 0, _ => .ok []
  | levels + 1, path =>
    match disk.readDirectory path with
    | .error trouble => .error (path, trouble)
    | .ok names => do
      let entries := names.map fun (name, kind) => Found.mk (Path.join path name) kind
      let found ← (entries.filter (!·.isSkipped)).mapM fun entry =>
        if entry.kind = .directory then do
          return entry :: (← disk.search levels entry.path)
        else return [entry]
      return found.flatten

/-- Every place is less deep than this. -/
def depth (disk : Disk) : Nat :=
  (disk.entries.map fun entry => entry.1.length).foldr max 0 + 1

/-- What a search finds that starts at `base`. If `base` leads to a file, that is all that is found,
unless it is reached through a link. -/
def searchFrom (disk : Disk) (base : RawText) : Except Obstacle (List Found) :=
  match disk.spot true base with
  | .error trouble => .error (base, trouble)
  | .ok (.free _) => .error (base, .notFound)
  | .ok (.taken _ .directory) => disk.search disk.depth base
  | .ok (.taken _ (.file _)) =>
    match disk.spot false base with
    | .ok (.taken _ (.file _)) => .ok [⟨base, .file⟩]
    | _ => .ok [⟨base, .link⟩]
  | .ok (.taken _ (.link _)) => .ok [⟨base, .link⟩]

/-- The paths of the scripts below the directory to which `base` leads, in order. -/
def discover (disk : Disk) (base : RawText) : Except Obstacle (List RawText) := do
  return scriptPaths (← disk.searchFrom base)

/-- The dialect in which rules are applied to a project: that of `build.gradle` if the project has
one. -/
def projectDialect (disk : Disk) (base : RawText) : Dialect :=
  if disk.isFile (Path.join base "build.gradle") then .groovy else .kotlin

end Disk

end BuildPrune
