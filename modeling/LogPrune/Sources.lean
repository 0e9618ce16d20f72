import LogPrune.Config
import LogPrune.Disk
import LogPrune.Exclusion

/-!
# LogPrune.Sources

The files to clean.

1. A file that is named is taken if its language is enabled, whatever the
   globs say.
2. A directory that is named is searched with all directories below it, but
   for the excluded ones; of its files those are taken that are not excluded
   and whose language is enabled.
3. The files come in the order of their paths, and each path once.
-/

namespace LogPrune

/-- Whether the language of a file is to be cleaned. -/
def Config.covers (c : Config) (p : FilePath) : Bool := p.language?.any c.enables

namespace FilePath

/-- The language of a file, or why there is none. -/
def detectLanguage (p : FilePath) : Except Error String :=
  match p.language? with
  | some language => .ok language
  | none => .error (.unsupportedExtension (p.extension?.getD ""))

/-- Sorted paths without those that are the same as the one before. -/
def dropRepeated : List FilePath → List FilePath
  | [] => []
  | p :: ps =>
    match dropRepeated ps with
    | [] => [p]
    | q :: qs => if p.same q then p :: qs else p :: q :: qs

end FilePath

/-- The globs of a configuration. -/
def Config.exclusion (c : Config) : Except Error Exclusion :=
  (Exclusion.parse c.exclude).mapError fun (glob, cause) => .invalidGlob glob cause

/-- The files to clean at or below a path. -/
def sourcesBelow (d : Disk) (c : Config) (e : Exclusion) (p : FilePath) :
    Except Error (List FilePath) :=
  if d.hasFile p then .ok (if c.covers p then [p] else [])
  else match d.filesBelow e.excludesDir p with
    | .ok files => .ok (files.filter fun q => !e.excludes q && c.covers q)
    | .error (q, cause) => .error (.walk q cause)

/-- The files to clean at or below some paths. -/
def findSources (d : Disk) (c : Config) (paths : List FilePath) :
    Except Error (List FilePath) := do
  let exclusion ← c.exclusion
  let found ← paths.mapM (sourcesBelow d c exclusion)
  return FilePath.dropRepeated (found.flatten.mergeSort FilePath.le)

end LogPrune
