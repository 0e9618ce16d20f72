import LogPrune.Config
import LogPrune.Glob.Reader

/-!
# LogPrune.Config.Problem

What makes a well-formed configuration unusable: nothing could be cleaned
under it, or one of its globs is wrong.
-/

namespace LogPrune

/-- A reason why a configuration is unusable. -/
inductive ConfigProblem
  | noSize
  | noLanguage
  | badGlob (glob : String) (cause : GlobError)
  deriving DecidableEq, Repr

namespace ConfigProblem

/-- The reason in words. -/
def message : ConfigProblem → String
  | noSize => "max_file_size_kb must be positive"
  | noLanguage => "At least one language must be enabled"
  | badGlob glob cause =>
    "exclude pattern '" ++ glob ++ "' is invalid: " ++ cause.message glob

/-- What is wrong with a glob, if anything. -/
def ofGlob? (glob : String) : Option ConfigProblem :=
  match Glob.parse glob with
  | .ok _ => none
  | .error cause => some (.badGlob glob cause)

end ConfigProblem

/-- All reasons why a configuration is unusable. -/
def Config.problems (c : Config) : List ConfigProblem :=
  (if c.maxFileSizeKb = 0 then [.noSize] else [])
    ++ (if c.languages.isEmpty then [.noLanguage] else [])
    ++ c.exclude.filterMap ConfigProblem.ofGlob?

end LogPrune
