/-!
# LogPrune.Command.Argument

Taking command lines apart.

1. An option is written with two dashes and its name, or with one dash and
   its letter.
2. The value of an option follows an equals sign or is the next argument,
   which then must not look like an option; behind a letter it may also
   follow at once.
3. Letters of options without values may share a dash with the letter behind
   them.
4. Behind `--` nothing is an option.
5. The name of a command ends the arguments of the command above it, and so
   does an option that asks about the program.
-/

namespace LogPrune

/-- An option that a command knows. -/
structure OptionSpec where
  name : String
  letter : Option Char := none
  takesValue : Bool := true
  /-- Whether nothing is read behind the option. -/
  endsReading : Bool := false

/-- An option as it was given; an option without a value has the empty
text. -/
structure GivenOption where
  name : String
  value : String := ""
  deriving DecidableEq, Repr

/-- The arguments of a command up to those of a command below it. -/
structure Arguments where
  options : List GivenOption := []
  operands : List String := []
  /-- The name of a command below and the arguments that follow it. -/
  command : Option (String × List String) := none
  deriving Repr

namespace Arguments

/-- The arguments with options before the others. -/
def withOptions (os : List GivenOption) (a : Arguments) : Arguments :=
  { a with options := os ++ a.options }

/-- The arguments with an operand before the others. -/
def withOperand (s : String) (a : Arguments) : Arguments :=
  { a with operands := s :: a.operands }

/-- Whether an argument looks like an option. -/
def looksLikeOption (s : String) : Bool :=
  match s.toList with
  | '-' :: _ :: _ => true
  | _ => false

/-- What follows the dashes of an option with a name: the name, and the value
if an equals sign follows. -/
def splitName (cs : List Char) : String × Option String :=
  let name := cs.takeWhile (· != '=')
  (String.ofList name,
    match cs.drop name.length with
    | _ :: value => some (String.ofList value)
    | [] => none)

/-- A value behind a letter, perhaps after an equals sign. -/
def attachedValue : List Char → String
  | '=' :: value => String.ofList value
  | value => String.ofList value

/-- The options that the letters behind a dash are, and the name of one that
still needs its value. -/
def readLetters? (specs : List OptionSpec) :
    List Char → Option (List GivenOption × Option String)
  | [] => some ([], none)
  | c :: cs =>
    match specs.find? (·.letter = some c) with
    | none => none
    | some spec =>
      if spec.endsReading then some ([⟨spec.name, ""⟩], none)
      else if !spec.takesValue then
        (readLetters? specs cs).map fun (os, waiting) => (⟨spec.name, ""⟩ :: os, waiting)
      else if cs = [] then some ([], some spec.name)
      else some ([⟨spec.name, attachedValue cs⟩], none)

/-- The options that an argument is, and the name of one that still needs its
value. -/
def readOption? (specs : List OptionSpec) (s : String) :
    Option (List GivenOption × Option String) :=
  match s.toList with
  | '-' :: '-' :: cs =>
    let (name, value) := splitName cs
    match specs.find? (·.name = name), value with
    | none, _ => none
    | some spec, some value =>
      if spec.takesValue then some ([⟨name, value⟩], none) else none
    | some spec, none =>
      if spec.takesValue then some ([], some name) else some ([⟨name, ""⟩], none)
  | _ :: cs => readLetters? specs cs
  | [] => none

/-- Whether nothing is read behind options. -/
def endReading (specs : List OptionSpec) (os : List GivenOption) : Bool :=
  os.any fun o => specs.any fun spec => spec.name = o.name && spec.endsReading

/-- Reads the arguments of a command that knows some options and commands. -/
def read? (specs : List OptionSpec) (commands : List String) :
    List String → Option Arguments
  | [] => some {}
  | s :: rest =>
    if commands.contains s then some { command := some (s, rest) }
    else if s = "--" then some { operands := rest }
    else if looksLikeOption s then
      match readOption? specs s with
      | none => none
      | some (os, none) =>
        if endReading specs os then some { options := os }
        else (read? specs commands rest).map (withOptions os)
      | some (os, some name) =>
        match rest with
        | [] => none
        | value :: rest =>
          if looksLikeOption value then none
          else (read? specs commands rest).map (withOptions (os ++ [⟨name, value⟩]))
    else (read? specs commands rest).map (withOperand s)

/-! ## Values of options -/

/-- The values of an option, in order. -/
def values (a : Arguments) (name : String) : List String :=
  (a.options.filter (·.name = name)).map (·.value)

/-- Whether an option without a value was given. -/
def has (a : Arguments) (name : String) : Bool := a.options.any (·.name = name)

/-- Whether none of some options was given twice. -/
def givenOnce (a : Arguments) (names : List String) : Bool :=
  names.all fun name => (a.values name).length ≤ 1

/-- The value of an option, if it was given, read with a reader. -/
def value? (a : Arguments) (name : String) (read : String → Option α) :
    Option (Option α) :=
  match (a.values name).getLast? with
  | none => some none
  | some s => (read s).map some

end Arguments
end LogPrune
