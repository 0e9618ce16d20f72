import LogPrune.Config
import LogPrune.FilePath
import LogPrune.Report.Output

/-!
# LogPrune.Command

The commands of the program.
-/

namespace LogPrune

/-- What to clean, and how; what is not given is left to the configuration. -/
structure CleanOrder where
  paths : List FilePath := [⟨"."⟩]
  mode : Option Mode := none
  /-- Whether changes are written, whatever the configuration says. -/
  write : Bool := false
  /-- Whether changes are only reported, whatever the configuration says. -/
  dryRun : Bool := false
  showDiff : Bool := false
  format : OutputFormat := .text
  /-- Globs to leave out besides those of the configuration. -/
  exclude : List String := []
  /-- Keep markers besides those of the configuration. -/
  keepTags : List String := []
  /-- The languages to clean, unless there are none. -/
  languages : List String := []
  maxFileSizeKb : Option Nat := none
  deriving DecidableEq, Repr

/-- A command. -/
inductive Command
  | clean (order : CleanOrder)
  | preview (file : FilePath) (format : OutputFormat)
  | undo (format : OutputFormat)
  | languages
  | configInit (path : FilePath) (force : Bool)
  | configShow
  | configValidate
  deriving DecidableEq, Repr

/-- A command with the settings that hold for all commands. -/
structure Invocation where
  /-- The configuration file, if it is not to be looked for. -/
  config : Option FilePath := none
  /-- The file for a log of the run itself. -/
  log : Option FilePath := none
  /-- The directory that holds the undo journal. -/
  stateDir : FilePath := ⟨".logsweep"⟩
  command : Command
  deriving DecidableEq, Repr

namespace CleanOrder

/-- A configuration with what an order says in place of it or besides it. -/
def override (o : CleanOrder) (c : Config) : Config :=
  { c with
    mode := o.mode.getD c.mode
    exclude := c.exclude ++ o.exclude
    whitelistTags := c.whitelistTags ++ o.keepTags
    languages := if o.languages.isEmpty then c.languages else o.languages
    maxFileSizeKb := o.maxFileSizeKb.getD c.maxFileSizeKb }

/-- Whether changes are written under a configuration. -/
def writes (o : CleanOrder) (c : Config) : Bool :=
  c.mode != .preview && (o.write || (!c.dryRunDefault && !o.dryRun))

end CleanOrder
end LogPrune
