import LogPrune.Disk

/-!
# LogPrune.Disk.Contents

Filling a disk file by file, and telling two disks apart.
-/

namespace LogPrune

/-- The files below a location, with their own locations. -/
def Dir.contents (above : Location) : Dir → List (Location × FileData)
  | empty => []
  | file name data rest => (above ++ [name], data) :: contents above rest
  | link _ _ rest => contents above rest
  | dir name entries rest => contents (above ++ [name]) entries ++ contents above rest

namespace Disk

/-- The disk with a file that has some data, and the directories above it;
the disk as it is where there can be no such file. -/
def addFile (d : Disk) (p : FilePath) (data : FileData) : Disk :=
  let withParent := match p.parent? with
    | some dir => (d.ensureDirs dir).toOption.getD d
    | none => d
  match withParent.place true p with
  | .ok (.vacant location) => withParent.put location (.file data)
  | .ok (.taken location (.file _)) => withParent.put location (.file data)
  | _ => d

/-- The files of a disk that another one does not have, or not with the same
data. -/
def differing (d other : Disk) : List (Location × FileData) :=
  (d.root.contents []).filter fun (location, data) =>
    other.root.get? location != some (.file data)

/-- The locations at which a disk has files and another one has nothing. -/
def missingFrom (d other : Disk) : List Location :=
  ((d.root.contents []).map (·.1)).filter fun location => (other.root.get? location).isNone

end Disk
end LogPrune
