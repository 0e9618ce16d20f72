import LogPrune.Command
import LogPrune.Command.Argument

/-!
# LogPrune.Command.Reader

Reading command lines.

Some options hold for all commands and may stand before or behind the name of
the command; what stands furthest behind counts.  An option that has one
value may be given once only.  Paths must not be empty, and writing excludes
a dry run.
-/

namespace LogPrune

/-- What a command line asks for. -/
inductive Request
  | run (invocation : Invocation)
  /-- The version of the program. -/
  | version
  /-- How the program is used. -/
  | help
  deriving DecidableEq, Repr

/-- The options that hold for all commands. -/
structure SharedOptions where
  config : Option FilePath := none
  log : Option FilePath := none
  stateDir : Option FilePath := none

namespace Request

/-! ## Values -/

/-- A path, which is not empty. -/
def path? (s : String) : Option FilePath := if s = "" then none else some ⟨s⟩

/-- The least number that does not fit into 64 bits. -/
def numberBound : Nat := 18446744073709551616

/-- A number of 64 bits, perhaps behind a plus sign. -/
def number? (s : String) : Option Nat :=
  let digits := match s.toList with
    | '+' :: rest => rest
    | t => t
  let n := digits.foldl (fun n c => n * 10 + (c.toNat - '0'.toNat)) 0
  if digits != [] && digits.all Char.isDigit && n < numberBound then some n else none

/-- A mode. -/
def mode? (s : String) : Option Mode := (Mode.parse s).toOption

/-! ## Options -/

/-- The options that every command knows. -/
def sharedSpecs : List OptionSpec :=
  [{ name := "config", letter := some 'c' }, { name := "log" },
   { name := "verbose", letter := some 'v', takesValue := false }, { name := "state-dir" },
   { name := "help", letter := some 'h', takesValue := false, endsReading := true }]

/-- The option that asks for the version. -/
def versionSpec : OptionSpec :=
  { name := "version", letter := some 'V', takesValue := false, endsReading := true }

/-- The option for the format of results. -/
def formatSpec : OptionSpec := { name := "format", letter := some 'f' }

/-- The options for cleaning. -/
def cleanSpecs : List OptionSpec :=
  [{ name := "mode", letter := some 'm' }, { name := "write", takesValue := false },
   { name := "dry-run", takesValue := false }, { name := "diff", takesValue := false },
   formatSpec, { name := "threads", letter := some 't' }, { name := "exclude" },
   { name := "keep-tag" }, { name := "language" }, { name := "max-file-size-kb" }]

/-- The shared options among the arguments of a command. -/
def shared? (a : Arguments) : Option SharedOptions := do
  if !a.givenOnce ["config", "log", "state-dir"] then none
  else return {
    config := ← a.value? "config" path?
    log := ← a.value? "log" path?
    stateDir := ← a.value? "state-dir" path? }

/-- Shared options, where they are given behind the command, and otherwise
those before it. -/
def orEarlier (later earlier : SharedOptions) : SharedOptions where
  config := later.config <|> earlier.config
  log := later.log <|> earlier.log
  stateDir := later.stateDir <|> earlier.stateDir

/-- A command with shared options. -/
def invoke (o : SharedOptions) (command : Command) : Request :=
  .run { config := o.config, log := o.log, stateDir := o.stateDir.getD ⟨".logsweep"⟩, command }

/-- The format of results. -/
def format? (a : Arguments) : Option OutputFormat :=
  if a.givenOnce ["format"] then
    (a.value? "format" OutputFormat.ofName?).map (·.getD .text)
  else none

/-! ## Commands -/

/-- Reads the arguments of a command that has no commands below it, unless
they ask for help. -/
def readLeaf? (specs : List OptionSpec) (earlier : SharedOptions) (args : List String)
    (command? : Arguments → Option Command) : Option Request := do
  let a ← Arguments.read? (specs ++ sharedSpecs) [] args
  let o ← shared? a
  if a.has "help" then return .help
  else return invoke (orEarlier o earlier) (← command? a)

/-- The only operand, or a default if there is none. -/
def onlyPath? (a : Arguments) (default : Option FilePath) : Option FilePath :=
  match a.operands with
  | [] => default
  | [s] => path? s
  | _ => none

/-- Arguments that hold no operands. -/
def noOperands? (a : Arguments) : Option Unit := if a.operands.isEmpty then some () else none

/-- The order to clean. -/
def cleanOrder? (a : Arguments) : Option CleanOrder := do
  let single := ["mode", "write", "dry-run", "diff", "threads", "max-file-size-kb"]
  if !a.givenOnce single || (a.has "write" && a.has "dry-run") then none
  else
    let paths ← a.operands.mapM path?
    let _threads ← a.value? "threads" number?
    return {
      paths := if paths.isEmpty then [⟨"."⟩] else paths
      mode := ← a.value? "mode" mode?
      write := a.has "write"
      dryRun := a.has "dry-run"
      showDiff := a.has "diff"
      format := ← format? a
      exclude := a.values "exclude"
      keepTags := a.values "keep-tag"
      languages := a.values "language"
      maxFileSizeKb := ← a.value? "max-file-size-kb" number? }

/-- Reads the arguments of the command for configurations. -/
def readConfig? (earlier : SharedOptions) (args : List String) : Option Request := do
  let a ← Arguments.read? sharedSpecs ["init", "show", "validate", "help"] args
  let o ← shared? a
  noOperands? a
  let o := orEarlier o earlier
  if a.has "help" then return .help
  else match a.command with
    | some ("init", args) =>
      readLeaf? [{ name := "force", takesValue := false }] o args fun a => do
        let path ← onlyPath? a (some ⟨".logsweep.toml"⟩)
        if a.givenOnce ["force"] then return .configInit path (a.has "force") else none
    | some ("show", args) =>
      readLeaf? [] o args fun a => (noOperands? a).map fun _ => .configShow
    | some ("validate", args) =>
      readLeaf? [] o args fun a => (noOperands? a).map fun _ => .configValidate
    | some _ => return .help
    | none => none

/-- Reads a command line. -/
def read? (args : List String) : Option Request := do
  let a ← Arguments.read? (versionSpec :: sharedSpecs)
    ["clean", "preview", "undo", "languages", "config", "help"] args
  let o ← shared? a
  noOperands? a
  if a.has "version" then return .version
  else if a.has "help" then return .help
  else match a.command with
    | some ("clean", args) => readLeaf? cleanSpecs o args fun a => (cleanOrder? a).map .clean
    | some ("preview", args) =>
      readLeaf? [formatSpec] o args fun a => do
        return .preview (← onlyPath? a none) (← format? a)
    | some ("undo", args) =>
      readLeaf? [formatSpec] o args fun a => do
        noOperands? a
        return .undo (← format? a)
    | some ("languages", args) =>
      readLeaf? [] o args fun a => (noOperands? a).map fun _ => .languages
    | some ("config", args) => readConfig? o args
    | some _ => return .help
    | none => none

end Request
end LogPrune
