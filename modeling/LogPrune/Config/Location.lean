import LogPrune.Config.Document
import LogPrune.Disk

/-!
# LogPrune.Config.Location

Where configurations are kept: in a file of a fixed name in the directory in
which a run starts, or in the nearest directory above it.
-/

namespace LogPrune
namespace Config

/-- The name of a configuration file. -/
def fileName : String := ".logsweep.toml"

/-- Loads a configuration. -/
def load (d : Disk) (p : FilePath) : Except Error Config := do
  let t ← (d.readText p).mapError (.read p)
  parse t

/-- Saves a configuration. -/
def save (c : Config) (d : Disk) (p : FilePath) : Except Error Disk := do
  let t ← c.write
  (d.writeText p t).mapError (.write p)

/-- The configuration file at or above a directory; the number bounds how far
up it is looked for. -/
def locateUpTo? : Nat → Disk → FilePath → Option FilePath
  | 0, _, _ => none
  | n + 1, d, dir =>
    if d.hasFile (dir.child fileName) then some (dir.child fileName)
    else dir.parent?.bind (locateUpTo? n d)

/-- The configuration file at or above a directory. -/
def locate? (d : Disk) (dir : FilePath) : Option FilePath :=
  locateUpTo? (dir.text.length + 1) d dir

/-- The configuration that is in force in a directory. -/
def discover (d : Disk) (dir : FilePath) : Except Error Config :=
  match locate? d dir with
  | some p => load d p
  | none => .ok {}

end Config
end LogPrune
