import LogPrune.Config
import LogPrune.Error
import LogPrune.Toml.Reader
import LogPrune.Toml.Writer

/-!
# LogPrune.Config.Document

Configurations as TOML documents.

Reading takes the default of every setting that is missing, at any level,
and passes over keys that are no settings; a setting of the wrong type is
refused.  A group of settings may also be an array, which gives them by
position, or a date, which gives none.  A mode is its name or a table with
its name as the only key and nothing in it.

The format has no integers beyond 64 bits with sign, so a size limit beyond
that cannot be written.
-/

namespace LogPrune

/-! ## Groups of settings -/

/-- A group of settings, by name or by position. -/
inductive Settings
  | named (entries : List (String × Toml))
  | listed (values : List Toml)

namespace Settings

/-- The group of settings that a value is. -/
def ofToml? : Toml → Option Settings
  | .table entries => some (named entries)
  | .array values => some (listed values)
  | .date _ => some (named [])
  | _ => none

/-- The value of a setting. -/
def find? (s : Settings) (key : String) (position : Nat) : Option Toml :=
  match s with
  | named entries => Toml.find? key entries
  | listed values => values[position]?

/-- A setting, read if it is given and otherwise the default. -/
def get? (s : Settings) (key : String) (position : Nat) (read? : Toml → Option α)
    (default : α) : Option α :=
  match s.find? key position with
  | some v => read? v
  | none => some default

end Settings

namespace Toml

/-! ## Single settings -/

/-- A truth value. -/
def boolean? : Toml → Option Bool
  | boolean b => some b
  | _ => none

/-- A number that is not negative. -/
def natural? : Toml → Option Nat
  | integer n => if 0 ≤ n then some n.toNat else none
  | _ => none

/-- A text. -/
def text? : Toml → Option String
  | string t => some (String.ofList t)
  | _ => none

/-- A list of texts. -/
def texts? : Toml → Option (List String)
  | array vs => vs.mapM text?
  | _ => none

/-- Whether a value is a table or an array with nothing in it. -/
def isNothing : Toml → Bool
  | table es => es.isEmpty
  | array vs => vs.isEmpty
  | _ => false

/-- A mode. -/
def mode? : Toml → Option Mode
  | string t => Mode.ofName? (String.ofList t)
  | table [(key, v)] => if isNothing v then Mode.ofName? key else none
  | _ => none

end Toml

/-! ## Reading -/

/-- The console switches that a value is. -/
def ConsoleSwitches.ofToml? (v : Toml) : Option ConsoleSwitches := do
  let s ← Settings.ofToml? v
  let default : ConsoleSwitches := {}
  return {
    log := ← s.get? "log" 0 Toml.boolean? default.log
    debug := ← s.get? "debug" 1 Toml.boolean? default.debug
    info := ← s.get? "info" 2 Toml.boolean? default.info
    warn := ← s.get? "warn" 3 Toml.boolean? default.warn
    error := ← s.get? "error" 4 Toml.boolean? default.error
    trace := ← s.get? "trace" 5 Toml.boolean? default.trace
    table := ← s.get? "table" 6 Toml.boolean? default.table
    dir := ← s.get? "dir" 7 Toml.boolean? default.dir
    assert := ← s.get? "assert" 8 Toml.boolean? default.assert
    count := ← s.get? "count" 9 Toml.boolean? default.count
    group := ← s.get? "group" 10 Toml.boolean? default.group
    time := ← s.get? "time" 11 Toml.boolean? default.time }

/-- The switches for kinds of log statement that a value is. -/
def LogTypes.ofToml? (v : Toml) : Option LogTypes := do
  let s ← Settings.ofToml? v
  let default : LogTypes := {}
  return {
    javascript := ← s.get? "javascript" 0 ConsoleSwitches.ofToml? default.javascript
    debugger := ← s.get? "debugger" 1 Toml.boolean? default.debugger
    allOtherLogs := ← s.get? "all_other_logs" 2 Toml.boolean? default.allOtherLogs }

namespace Config

/-- The configuration that a value is. -/
def ofToml? (v : Toml) : Option Config := do
  let s ← Settings.ofToml? v
  let default : Config := {}
  return {
    languages := ← s.get? "languages" 0 Toml.texts? default.languages
    mode := ← s.get? "mode" 1 Toml.mode? default.mode
    removeCommentedLogs :=
      ← s.get? "remove_commented_logs" 2 Toml.boolean? default.removeCommentedLogs
    maxFileSizeKb := ← s.get? "max_file_size_kb" 3 Toml.natural? default.maxFileSizeKb
    whitelistTags := ← s.get? "whitelist_tags" 4 Toml.texts? default.whitelistTags
    exclude := ← s.get? "exclude" 5 Toml.texts? default.exclude
    dryRunDefault := ← s.get? "dry_run_default" 6 Toml.boolean? default.dryRunDefault
    htmlCssHandling := ← s.get? "html_css_handling" 7 Toml.boolean? default.htmlCssHandling
    logTypes := ← s.get? "log_types" 8 LogTypes.ofToml? default.logTypes }

/-- Reads a configuration. -/
def parse (t : Text) : Except Error Config :=
  match (Toml.parse? t).bind ofToml? with
  | some config => .ok config
  | none => .error .malformedConfig

end Config

/-! ## Writing -/

/-- A list of texts as a value. -/
def Toml.ofTexts (texts : List String) : Toml := .array (texts.map fun s => .string s.toList)

/-- The console switches as a table. -/
def ConsoleSwitches.toToml (s : ConsoleSwitches) : Toml :=
  .table [("log", .boolean s.log), ("debug", .boolean s.debug), ("info", .boolean s.info),
    ("warn", .boolean s.warn), ("error", .boolean s.error), ("trace", .boolean s.trace),
    ("table", .boolean s.table), ("dir", .boolean s.dir), ("assert", .boolean s.assert),
    ("count", .boolean s.count), ("group", .boolean s.group), ("time", .boolean s.time)]

/-- The switches for kinds of log statement as a table. -/
def LogTypes.toToml (l : LogTypes) : Toml :=
  .table [("javascript", l.javascript.toToml), ("debugger", .boolean l.debugger),
    ("all_other_logs", .boolean l.allOtherLogs)]

namespace Config

/-- A configuration as a table. -/
def toToml (c : Config) : Toml :=
  .table [("languages", .ofTexts c.languages), ("mode", .string c.mode.name.toList),
    ("remove_commented_logs", .boolean c.removeCommentedLogs),
    ("max_file_size_kb", .integer c.maxFileSizeKb),
    ("whitelist_tags", .ofTexts c.whitelistTags), ("exclude", .ofTexts c.exclude),
    ("dry_run_default", .boolean c.dryRunDefault),
    ("html_css_handling", .boolean c.htmlCssHandling), ("log_types", c.logTypes.toToml)]

/-- Writes a configuration. -/
def write (c : Config) : Except Error Text :=
  if c.maxFileSizeKb < Toml.integerBound then .ok (Toml.pretty c.toToml) else .error .unwritableConfig

end Config
end LogPrune
