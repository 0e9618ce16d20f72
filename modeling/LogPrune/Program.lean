import LogPrune.Command.Reader
import LogPrune.Ruleset
import LogPrune.Run.Clean
import LogPrune.Run.Log

/-!
# LogPrune.Program

What the program does: from a disk and a command line to a changed disk, what
is printed and the exit status.
-/

namespace LogPrune

/-! ## Commands -/

/-- Lists the statements of a file. -/
def runPreview (c : Config) (p : FilePath) (format : OutputFormat) (r : Run) : Outcome :=
  let result := FileReport.scan r.disk { c with mode := .preview } p
  match result.error with
  | some e => r.fail { message := "Failed to preview " ++ p.text ++ ": " ++ e }
  | none => (r.print (result.printed format reportBase false)).succeed

/-- Takes the last run back. -/
def runUndo (store : UndoStore) (format : OutputFormat) (r : Run) : Outcome :=
  match store.summary r.disk with
  | .error e => r.fail (.ofError e)
  | .ok summary =>
    let r := match summary with
      | some s => r.note ("↩️  Undoing: " ++ s)
      | none => r
    match store.undo r.disk with
    | (.ok outcome, disk) => ({ r with disk }.print (outcome.printed format)).succeed
    | (.error e, disk) => { r with disk }.fail (.ofError e)

/-- The line of a language in the list of all languages. -/
def languageLine (language : String) : Text :=
  padded 16 language.toList ++ ' ' ::
    (" ".intercalate ((extensionsOf language).map ("." ++ ·))).toList ++ ['\n']

/-- Writes a configuration with all defaults. -/
def runConfigInit (p : FilePath) (force : Bool) (r : Run) : Outcome :=
  if r.disk.hasNode p && !force then
    r.fail { message := p.text ++ " already exists (use --force to overwrite)" }
  else match Config.save {} r.disk p with
    | .error e => r.fail ((Failure.ofError e).within ("Failed to write " ++ p.text))
    | .ok disk => ({ r with disk }.printLine ("✓ Wrote " ++ p.text)).succeed

/-- Prints a configuration. -/
def runConfigShow (c : Config) (r : Run) : Outcome :=
  match c.write with
  | .error e => r.fail (.ofError e)
  | .ok t => (r.print t).succeed

/-- Says what is wrong with a configuration. -/
def runConfigValidate (c : Config) (r : Run) : Outcome :=
  match c.problems with
  | [] => (r.printLine "✓ Configuration is valid").succeed
  | problems =>
    let r := problems.foldl (fun r p => r.note ("✗ " ++ p.message)) r
    ⟨1, r.stdout, r.stderr, r.disk⟩

/-- Goes on with the configuration of a run, if it can be loaded. -/
def withConfig (i : Invocation) (r : Run) (go : Config → Run → Outcome) : Outcome :=
  match loadConfig r.disk i.config with
  | .ok c => go c r
  | .error f => r.fail f

/-- Runs a command. -/
def Invocation.run (clock : Clock) (i : Invocation) (r : Run) : Outcome :=
  let store : UndoStore := ⟨i.stateDir⟩
  match i.command with
  | .clean order => withConfig i r (order.run clock store)
  | .preview p format => withConfig i r fun c => runPreview c p format
  | .undo format => runUndo store format r
  | .languages => (r.print (Ruleset.supportedLanguages.flatMap languageLine)).succeed
  | .configInit p force => runConfigInit p force r
  | .configShow => withConfig i r runConfigShow
  | .configValidate => withConfig i r runConfigValidate

/-! ## Command lines -/

namespace Program

/-- The name and the version of the program. -/
def versionLine : String := "logsweep 0.1.0"

/-- How the program is used. -/
def usage : String :=
  "Usage: logsweep [OPTIONS] <clean|preview|undo|languages|config>"

/-- Runs a command line. -/
def run (clock : Clock) (disk : Disk) (args : List String) : Outcome :=
  let r : Run := { disk }
  match Request.read? args with
  | none => let r := r.note usage; ⟨2, r.stdout, r.stderr, r.disk⟩
  | some .version => (r.printLine versionLine).succeed
  | some .help => (r.printLine usage).succeed
  | some (.run i) =>
    match i.log with
    | none => i.run clock r
    | some p =>
      match disk.openLog p with
      | .ok disk => i.run clock ({ r with disk }.noteLog p)
      | .error e => (r.note ("Failed to open log: " ++ e.message)).abort

end Program
end LogPrune
