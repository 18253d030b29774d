import BuildPrune.Disk.Basic
import BuildPrune.Path

/-!
# BuildPrune.Disk.Lookup

Paths looked up on a disk. A walk goes down name by name until it meets a link; the path of the link
then takes the place of its name, and the walk goes on from the directory of the link. At most forty
links are followed.
-/

namespace BuildPrune

/-- Why a path leads nowhere, or not to what was asked for. -/
inductive Trouble
  | notFound
  | notADirectory
  | isADirectory
  | tooManyLinks
  | nameTooLong
  /-- The path contains the byte 0. -/
  | nulInPath
  /-- Whatever else a real disk may refuse. -/
  | refused
  deriving DecidableEq, Repr

/-- The wording of a trouble. -/
def Trouble.message : Trouble → String
  | .notFound => "No such file or directory (os error 2)"
  | .notADirectory => "Not a directory (os error 20)"
  | .isADirectory => "Is a directory (os error 21)"
  | .tooManyLinks => "Too many levels of symbolic links (os error 40)"
  | .nameTooLong => "File name too long (os error 36)"
  | .nulInPath => "file name contained an unexpected NUL byte"
  | .refused => "Permission denied (os error 13)"

namespace Disk

/-- The place to which a path leads. -/
inductive Spot
  | taken (place : Location) (node : Inode)
  /-- Nothing is there, but it is in a directory. -/
  | free (place : Location)
  deriving DecidableEq

/-- How far a walk comes without following a link. -/
inductive Reach
  | spot (spot : Spot)
  /-- The walk met a link with names still to go. -/
  | link (place : Location) (target : RawText) (rest : List RawText)
  deriving DecidableEq

/-- Walks from a directory along names until they end or a link is met. Only the last name may be
free, and only the last may be that of a file. -/
def walk (disk : Disk) (here : Location) : List RawText → Except Trouble Reach
  | [] => .ok (.spot (.taken here .directory))
  | name :: rest =>
    if name = "" ∨ name = "." then disk.walk here rest
    else if name = ".." then disk.walk here.dropLast rest
    else if name.bytes.length > 255 then .error .nameTooLong
    else
      let place := here ++ [name]
      match disk.get? place with
      | some .directory => disk.walk place rest
      | some (.link target) => .ok (.link place target rest)
      | some (.file content) =>
        if rest.isEmpty then .ok (.spot (.taken place (.file content))) else .error .notADirectory
      | none => if rest.isEmpty then .ok (.spot (.free place)) else .error .notFound

/-- Where the walk along a path starts, seen from a directory. -/
def start (directory : Location) (path : RawText) : Location :=
  if Path.isAbsolute path then [] else directory

/-- The spot at the end of a walk that follows at most `links` links. A link at the very end is
followed only if `last` says so; a slash after it is then a mistake. -/
def follow (disk : Disk) (last : Bool) (links : Nat) (here : Location) (names : List RawText) :
    Except Trouble Spot :=
  match disk.walk here names with
  | .error trouble => .error trouble
  | .ok (.spot spot) => .ok spot
  | .ok (.link place target rest) =>
    if !last && rest.isEmpty then .ok (.taken place (.link target))
    else if !last && rest.all (· = "") then .error .notADirectory
    else
      match links with
      | 0 => .error .tooManyLinks
      | links + 1 =>
        disk.follow last links (start place.dropLast target) (Path.pieces target ++ rest)

/-- The spot to which a path leads. A link at its end is followed if `last` says so. -/
def spot (disk : Disk) (last : Bool) (path : RawText) : Except Trouble Spot :=
  if path = "" then .error .notFound
  else if path.bytes.contains 0 then .error .nulInPath
  else if path.bytes.length > 4095 then .error .nameTooLong
  else disk.follow last 40 (start disk.home path) (Path.pieces path)

/-! ### Files -/

/-- The path leads to a regular file, possibly through links. -/
def isFile (disk : Disk) (path : RawText) : Bool :=
  match disk.spot true path with
  | .ok (.taken _ (.file _)) => true
  | _ => false

/-- The content of the file to which a path leads. -/
def read (disk : Disk) (path : RawText) : Except Trouble ByteArray :=
  match disk.spot true path with
  | .error trouble => .error trouble
  | .ok (.taken _ (.file content)) => .ok content
  | .ok (.taken _ _) => .error .isADirectory
  | .ok (.free _) => .error .notFound

/-- Gives the file to which a path leads a new content, or creates it in its directory. A file that
has several names changes under all of them. -/
def write (disk : Disk) (path : RawText) (content : ByteArray) : Except Trouble Disk :=
  match disk.spot true path with
  | .error trouble => .error trouble
  | .ok (.taken place (.file _)) => .ok (disk.store place content)
  | .ok (.taken _ _) => .error .isADirectory
  | .ok (.free place) => .ok (disk.store place content)

/-- Removes the link to which a path leads, or this name of the file to which it leads. -/
def remove (disk : Disk) (path : RawText) : Except Trouble Disk :=
  match disk.spot false path with
  | .error trouble => .error trouble
  | .ok (.taken _ .directory) => .error .isADirectory
  | .ok (.taken place _) => .ok (disk.erase place)
  | .ok (.free _) => .error .notFound

/-! ### Setting up -/

/-- The disk with directories on the way to a place, itself included, where nothing was. -/
def makeDirectories (disk : Disk) (place : Location) : Disk :=
  (List.range place.length).foldl
    (fun disk n =>
      let above := place.take (n + 1)
      if (disk.get? above).isSome then disk else disk.put above .directory)
    disk

/-- A disk on which there is only an empty directory, the home. -/
def empty (home : Location) : Disk :=
  (Disk.mk [] (fun _ => .empty) home).makeDirectories home

/-- Puts something at the end of a relative path, with the directories that lead there. A content
goes where the links on the way lead, as in `write`. -/
def install (disk : Disk) (path : RawText) (node : Inode) : Except Trouble Disk :=
  let place := disk.home ++ (Path.pieces path).filter fun (name : RawText) => name ≠ "" ∧ name ≠ "."
  let disk := disk.makeDirectories place.dropLast
  match node with
  | .file content => disk.write path content
  | .link target => .ok (disk.put place (.link target))
  | .directory => .ok (disk.put place .directory)

end Disk

end BuildPrune
