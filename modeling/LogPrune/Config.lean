import LogPrune.Text.Blank
import LogPrune.Language

/-!
# LogPrune.Config

The settings of a run: which languages are cleaned and how, what is left
out, and which kinds of log statement count.

Every setting has a default, so a partial configuration is a whole one.
-/

namespace LogPrune

/-! ## Modes -/

/-- What happens to a log statement that is found. -/
inductive Mode
  /-- It is removed, with its line when nothing else stands on it. -/
  | delete
  /-- Its lines are commented out. -/
  | comment
  /-- It is only reported. -/
  | preview
  deriving DecidableEq, Repr, Inhabited

namespace Mode

/-- The name of a mode. -/
def name : Mode → String
  | delete => "delete"
  | comment => "comment"
  | preview => "preview"

/-- The mode with a given name. -/
def ofName? (s : String) : Option Mode :=
  [delete, comment, preview].find? (·.name = s)

/-- A mode as users write it: in any case and with blanks around it.  What is
not a mode comes back in the form in which it was compared. -/
def parse (s : String) : Except String Mode :=
  let name := lowerAscii (String.ofList (Text.trim s.toList))
  match ofName? name with
  | some mode => .ok mode
  | none => .error name

end Mode

/-! ## Settings -/

/-- The switches for families of console methods. -/
structure ConsoleSwitches where
  log : Bool := true
  debug : Bool := true
  info : Bool := true
  warn : Bool := true
  error : Bool := true
  trace : Bool := true
  table : Bool := true
  dir : Bool := true
  assert : Bool := true
  count : Bool := true
  group : Bool := true
  time : Bool := true
  deriving DecidableEq, Repr, Inhabited

/-- The console methods that the switches turn on.  A switch covers the
variants of its method. -/
def ConsoleSwitches.methods (s : ConsoleSwitches) : List String :=
  [(s.log, ["log"]), (s.debug, ["debug"]), (s.info, ["info"]), (s.warn, ["warn"]),
   (s.error, ["error"]), (s.trace, ["trace"]), (s.table, ["table"]),
   (s.dir, ["dir", "dirxml"]), (s.assert, ["assert"]), (s.count, ["count", "countReset"]),
   (s.group, ["group", "groupCollapsed", "groupEnd"]),
   (s.time, ["time", "timeEnd", "timeLog"])].flatMap
    fun (on, family) => if on then family else []

/-- The switches for kinds of log statement. -/
structure LogTypes where
  javascript : ConsoleSwitches := {}
  /-- Whether `debugger` statements count. -/
  debugger : Bool := true
  /-- Whether the prints of languages without switches of their own count. -/
  allOtherLogs : Bool := true
  deriving DecidableEq, Repr, Inhabited

/-- The settings of a run. -/
structure Config where
  /-- The ids of the languages to clean. -/
  languages : List String :=
    ["javascript", "typescript", "python", "java", "php", "csharp", "go", "rust", "swift", "c",
     "cpp", "ruby", "dart", "shellscript", "sql", "html", "css", "scss", "less", "markdown"]
  mode : Mode := .preview
  /-- Whether log statements that are already commented out count. -/
  removeCommentedLogs : Bool := true
  /-- The size in kilobytes beyond which a file is left alone. -/
  maxFileSizeKb : Nat := 500
  /-- The markers that keep a statement on their line or the next. -/
  whitelistTags : List String := ["@keep", "@preserve"]
  /-- Globs of the paths to leave out. -/
  exclude : List String :=
    ["**/node_modules/**", "**/dist/**", "**/out/**", "**/build/**", "**/.git/**",
     "**/vendor/**", "**/target/**"]
  /-- Whether a run only reports unless it is told to write. -/
  dryRunDefault : Bool := true
  /-- Whether markup and style sheets are cleaned. -/
  htmlCssHandling : Bool := true
  logTypes : LogTypes := {}
  deriving DecidableEq, Repr, Inhabited

namespace Config

/-- The language that a dialect is enabled with. -/
def baseLanguage (language : String) : String :=
  if language = "javascriptreact" then "javascript"
  else if language = "typescriptreact" then "typescript"
  else if language = "bash" || language = "sh" then "shellscript"
  else language

/-- Whether a language is to be cleaned: it is listed, or the language that
it is a dialect of is. -/
def enables (config : Config) (language : String) : Bool :=
  config.languages.any fun l => l = language || l = baseLanguage language

end Config
end LogPrune
