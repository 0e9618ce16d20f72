import LogPrune.Disk.Place

/-!
# LogPrune.Disk

What the program does with files.

Reading and asking leave the disk as it is.  An operation that changes the
disk gives the changed one, or the reason why it was refused.
-/

namespace LogPrune
namespace Disk

/-! ## Asking -/

/-- The node that a path leads to, through links, and its location. -/
def stat (d : Disk) (p : FilePath) : Except IoError (Location × Node) :=
  match d.place true p with
  | .ok (.taken location node) => .ok (location, node)
  | .ok (.vacant _) => .error .notFound
  | .error e => .error e

/-- Whether a path leads to anything. -/
def hasNode (d : Disk) (p : FilePath) : Bool :=
  match d.stat p with
  | .ok _ => true
  | .error _ => false

/-- Whether a path leads to a file. -/
def hasFile (d : Disk) (p : FilePath) : Bool :=
  match d.stat p with
  | .ok (_, .file _) => true
  | _ => false

/-- Whether a path leads to a directory. -/
def hasDir (d : Disk) (p : FilePath) : Bool :=
  match d.stat p with
  | .ok (_, .dir _) => true
  | _ => false

/-- The size that a directory is said to have. -/
def dirSize : Nat := 4096

/-- The number of bytes of a node. -/
def size (d : Disk) (p : FilePath) : Except IoError Nat :=
  match d.stat p with
  | .ok (_, .file data) => .ok data.bytes.size
  | .ok _ => .ok dirSize
  | .error e => .error e

/-- The absolute path of a location. -/
def absolutePath (location : Location) : FilePath := ⟨"/" ++ FilePath.joinSegments location⟩

/-- The absolute path of a node, free of links.  It has to stay below the
limit for paths, even where the path that was asked for does. -/
def realPath (d : Disk) (p : FilePath) : Except IoError FilePath :=
  match d.stat p with
  | .ok (location, _) =>
    if pathLimit ≤ (absolutePath location).text.utf8ByteSize then .error .nameTooLong
    else .ok (absolutePath location)
  | .error e => .error e

/-! ## Reading -/

/-- The bytes of a file. -/
def readBytes (d : Disk) (p : FilePath) : Except IoError ByteArray :=
  match d.stat p with
  | .ok (_, .file data) => if data.readable then .ok data.bytes else .error .denied
  | .ok _ => .error .isADirectory
  | .error e => .error e

/-- The text of a file. -/
def readText (d : Disk) (p : FilePath) : Except IoError Text := do
  match String.fromUTF8? (← d.readBytes p) with
  | some s => return s.toList
  | none => .error .invalidText

/-- The files of a directory with a given path and of the directories below
it, but for those that are passed over.  Links are not followed.  A directory
that is searched is opened by its path, which has to stay below the limit for
paths; the first one that cannot be opened is reported. -/
def filesIn (passOver : FilePath → Bool) (path : FilePath) :
    Dir → Except (FilePath × IoError) (List FilePath)
  | .empty => .ok []
  | .file name _ rest => do
    let files ← filesIn passOver path rest
    return path.child name :: files
  | .link _ _ rest => filesIn passOver path rest
  | .dir name entries rest => do
    let below ← if passOver (path.child name) then .ok []
      else if pathLimit ≤ (path.child name).text.utf8ByteSize then
        .error (path.child name, .nameTooLong)
      else filesIn passOver (path.child name) entries
    let files ← filesIn passOver path rest
    return below ++ files

/-- The files below a path, or at it, but for those in directories that are
passed over.  Only a link at the path itself is followed, and then the
directory behind it is not passed over. -/
def filesBelow (d : Disk) (passOver : FilePath → Bool) (p : FilePath) :
    Except (FilePath × IoError) (List FilePath) :=
  match d.place false p with
  | .error e => .error (p, e)
  | .ok (.vacant _) => .error (p, .notFound)
  | .ok (.taken _ (.file _)) => .ok [p]
  | .ok (.taken _ (.dir entries)) => if passOver p then .ok [] else filesIn passOver p entries
  | .ok (.taken _ (.link _)) =>
    match d.stat p with
    | .error e => .error (p, e)
    | .ok (_, .dir entries) => filesIn passOver p entries
    | .ok _ => .ok []

/-! ## Changing -/

/-- The disk with a node at a location. -/
def put (d : Disk) (location : Location) (node : Node) : Disk :=
  { d with root := d.root.put node location }

/-- Writes a file, which comes into being if it is not there. -/
def writeBytes (d : Disk) (p : FilePath) (bytes : ByteArray) : Except IoError Disk :=
  match d.place true (withoutSlash p) with
  | .error e => .error e
  | .ok place =>
    if endsInSlash p then .error .isADirectory
    else match place with
      | .taken location (.file data) =>
        if data.writable then .ok (d.put location (.file { data with bytes }))
        else .error .denied
      | .taken _ _ => .error .isADirectory
      | .vacant location => .ok (d.put location (.file { bytes }))

/-- Writes the text of a file. -/
def writeText (d : Disk) (p : FilePath) (t : Text) : Except IoError Disk :=
  d.writeBytes p (String.ofList t).toUTF8

/-- Adds bytes at the end of a file, which comes into being if it is not
there. -/
def appendBytes (d : Disk) (p : FilePath) (bytes : ByteArray) : Except IoError Disk :=
  match d.stat p with
  | .ok (_, .file data) => d.writeBytes p (data.bytes ++ bytes)
  | _ => d.writeBytes p bytes

/-- Makes a directory in an existing one. -/
def makeDir (d : Disk) (p : FilePath) : Except IoError Disk :=
  match d.place false (withoutSlash p) with
  | .error e => .error e
  | .ok (.taken _ _) => .error .alreadyExists
  | .ok (.vacant location) => .ok (d.put location (.dir .empty))

/-- Makes a directory, unless it is there. -/
def ensureDir (d : Disk) (p : FilePath) : Except IoError Disk :=
  match d.makeDir p with
  | .ok d => .ok d
  | .error e => if d.hasDir p then .ok d else .error e

/-- Makes a directory and those above it, as far as they are not there.  The
number bounds how far up it goes.  Directories made before one is refused
stay. -/
def makeDirsUpTo : Nat → Disk → FilePath → Except IoError Unit × Disk
  | 0, d, _ => (.error .notFound, d)
  | n + 1, d, p =>
    if p.text = "" then (.ok (), d)
    else match d.ensureDir p with
      | .ok d => (.ok (), d)
      | .error .notFound =>
        match p.parent? with
        | none => (.error .notFound, d)
        | some q =>
          match makeDirsUpTo n d q with
          | (.error e, d) => (.error e, d)
          | (.ok _, d) =>
            match d.ensureDir p with
            | .ok d => (.ok (), d)
            | .error e => (.error e, d)
      | .error e => (.error e, d)

/-- Makes a directory and those above it, as far as they are not there. -/
def makeDirs (d : Disk) (p : FilePath) : Except IoError Unit × Disk :=
  makeDirsUpTo (p.text.length + 1) d p

/-- The disk with a directory and those above it, if they can be made. -/
def ensureDirs (d : Disk) (p : FilePath) : Except IoError Disk :=
  match d.makeDirs p with
  | (.ok _, d) => .ok d
  | (.error e, _) => .error e

/-- Removes a file or a link. -/
def removeFile (d : Disk) (p : FilePath) : Except IoError Disk :=
  match d.place false p with
  | .error e => .error e
  | .ok (.vacant _) => .error .notFound
  | .ok (.taken _ (.dir _)) => .error .isADirectory
  | .ok (.taken location _) => .ok { d with root := d.root.remove location }

end Disk
end LogPrune
