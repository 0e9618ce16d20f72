import LogPrune.FilePath

/-!
# LogPrune.Disk.Tree

Directory trees.  A directory is the list of its entries: files, symbolic
links and directories, each under a name of its own.  The place of a node in
a tree is the list of names that lead to it from the root.
-/

namespace LogPrune

/-- A file: its bytes, and whether it may be read and written. -/
structure FileData where
  bytes : ByteArray
  readable : Bool := true
  writable : Bool := true

/-- Files are equal when their bytes and what may be done with them are. -/
theorem FileData.eq_iff (a b : FileData) :
    (a.bytes.data = b.bytes.data ∧ a.readable = b.readable ∧ a.writable = b.writable)
      ↔ a = b := by
  obtain ⟨⟨_⟩, _, _⟩ := a
  obtain ⟨⟨_⟩, _, _⟩ := b
  simp

instance : DecidableEq FileData := fun a b => decidable_of_iff _ (FileData.eq_iff a b)

/-- A directory, entry by entry. -/
inductive Dir
  | empty
  | file (name : String) (data : FileData) (rest : Dir)
  | link (name : String) (target : FilePath) (rest : Dir)
  | dir (name : String) (entries : Dir) (rest : Dir)
  deriving DecidableEq, Inhabited

/-- What a name stands for. -/
inductive Node
  | file (data : FileData)
  | link (target : FilePath)
  | dir (entries : Dir)
  deriving DecidableEq

/-- The names that lead to a node from the root of its tree. -/
abbrev Location := List String

namespace Dir

/-! ## Entries -/

/-- A directory with an entry before the others. -/
def cons (name : String) (node : Node) (rest : Dir) : Dir :=
  match node with
  | .file data => .file name data rest
  | .link target => .link name target rest
  | .dir entries => .dir name entries rest

/-- What a name stands for. -/
def find? (name : String) : Dir → Option Node
  | empty => none
  | file n data rest => if n = name then some (.file data) else find? name rest
  | link n target rest => if n = name then some (.link target) else find? name rest
  | dir n entries rest => if n = name then some (.dir entries) else find? name rest

/-- The directory in which a name stands for a node. -/
def insert (name : String) (node : Node) : Dir → Dir
  | empty => cons name node empty
  | file n data rest =>
    if n = name then cons name node rest else file n data (insert name node rest)
  | link n target rest =>
    if n = name then cons name node rest else link n target (insert name node rest)
  | dir n entries rest =>
    if n = name then cons name node rest else dir n entries (insert name node rest)

/-- The directory without the entry of a name. -/
def erase (name : String) : Dir → Dir
  | empty => empty
  | file n data rest => if n = name then rest else file n data (erase name rest)
  | link n target rest => if n = name then rest else link n target (erase name rest)
  | dir n entries rest => if n = name then rest else dir n entries (erase name rest)

/-! ## Nodes of the tree -/

/-- The node at a location. -/
def get? : Location → Dir → Option Node
  | [], d => some (.dir d)
  | name :: names, d =>
    match names, d.find? name with
    | [], node => node
    | names, some (.dir entries) => get? names entries
    | _, _ => none

/-- The tree with a node at a location, if the directory above it exists. -/
def put (node : Node) : Location → Dir → Dir
  | [], d => d
  | [name], d => d.insert name node
  | name :: names, d =>
    match d.find? name with
    | some (.dir entries) => d.insert name (.dir (put node names entries))
    | _ => d

/-- The tree without the node at a location. -/
def remove : Location → Dir → Dir
  | [], d => d
  | [name], d => d.erase name
  | name :: names, d =>
    match d.find? name with
    | some (.dir entries) => d.insert name (.dir (remove names entries))
    | _ => d

end Dir
end LogPrune
