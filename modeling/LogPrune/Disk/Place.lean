import LogPrune.Disk.Tree
import LogPrune.Error

/-!
# LogPrune.Disk.Place

Where a path leads.

A path is followed from the root or the working directory, segment by
segment.  A link on the way is replaced by its target, at most forty times; a
link at the end only where the operation says so.  A path that ends in a
slash leads to a directory.  Where only the last name is missing, the path
leads to a vacant place.
-/

namespace LogPrune

/-- All files, and the working directory. -/
structure Disk where
  root : Dir
  workingDir : Location := []
  deriving DecidableEq, Inhabited

/-- Where a path leads. -/
inductive Place
  | taken (location : Location) (node : Node)
  /-- The directory above has no such name. -/
  | vacant (location : Location)
  deriving DecidableEq

namespace Disk

/-- The number of links that a path may lead through. -/
def linkLimit : Nat := 40

/-- The length in bytes that a name may have. -/
def nameLimit : Nat := 255

/-- The length in bytes that a path has to stay below. -/
def pathLimit : Nat := 4096

/-- The segments of a path that count, with a `.` for a slash at the end. -/
def steps (p : FilePath) : List String :=
  p.segments.filter (· != "")
    ++ (if p.text.toList.getLast? = some '/' then ["."] else [])

/-- The location that a path starts from. -/
def start (p : FilePath) (here : Location) : Location := if p.isAbsolute then [] else here

/-- Follows segments from a directory.  A link is left to `jump`, which gets
the directory and the segments to follow instead. -/
def follow (d : Disk) (jump : Location → List String → Except IoError Place)
    (lastLink : Bool) : Location → List String → Except IoError Place
  | here, [] =>
    match d.root.get? here with
    | some node => .ok (.taken here node)
    | none => .error .notFound
  | here, s :: rest =>
    if s = "." then follow d jump lastLink here rest
    else if s = ".." then follow d jump lastLink here.dropLast rest
    else if nameLimit < s.utf8ByteSize then .error .nameTooLong
    else match d.root.get? (here ++ [s]) with
      | none => if rest = [] then .ok (.vacant (here ++ [s])) else .error .notFound
      | some (.dir entries) =>
        if rest = [] then .ok (.taken (here ++ [s]) (.dir entries))
        else follow d jump lastLink (here ++ [s]) rest
      | some (.file data) =>
        if rest = [] then .ok (.taken (here ++ [s]) (.file data)) else .error .notADirectory
      | some (.link target) =>
        if rest = [] && !lastLink then .ok (.taken (here ++ [s]) (.link target))
        else if target.text = "" then .error .notFound
        else jump (start target here) (steps target ++ rest)

/-- Follows segments through at most a number of links. -/
def followLinks (d : Disk) (lastLink : Bool) :
    Nat → Location → List String → Except IoError Place
  | 0 => d.follow (fun _ _ => .error .tooManyLinks) lastLink
  | n + 1 => d.follow (followLinks d lastLink n) lastLink

/-- Where a path leads; `lastLink` says whether through a link at its end. -/
def place (d : Disk) (lastLink : Bool) (p : FilePath) : Except IoError Place :=
  if p.text.toList.contains '\x00' then .error .nulInPath
  else if p.text = "" then .error .notFound
  else if pathLimit ≤ p.text.utf8ByteSize then .error .nameTooLong
  else d.followLinks lastLink linkLimit (start p d.workingDir) (steps p)

/-- A path without the slashes at its end, unless it is the root. -/
def withoutSlash (p : FilePath) : FilePath :=
  let t := (p.text.toList.reverse.dropWhile (· = '/')).reverse
  if t = [] then p else ⟨String.ofList t⟩

/-- Whether a path ends in a slash without being the root. -/
def endsInSlash (p : FilePath) : Bool := (withoutSlash p).text != p.text

end Disk
end LogPrune
