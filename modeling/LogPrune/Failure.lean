import LogPrune.Error

/-!
# LogPrune.Failure

A failure of a command as it is shown to users: a message, and beneath it
the messages of its causes, numbered if there are several.
-/

namespace LogPrune

/-- Why a command failed. -/
structure Failure where
  message : String
  /-- What lies beneath, outermost first. -/
  causes : List String := []
  deriving DecidableEq, Repr

namespace Failure

/-- An error as a failure. -/
def ofError (e : Error) : Failure := ⟨e.message, e.causes⟩

/-- A failure as the cause of another one. -/
def within (message : String) (f : Failure) : Failure := ⟨message, f.message :: f.causes⟩

/-- A text whose lines but the first are indented by a number of spaces. -/
def hanging (indent : Nat) (t : Text) : Text :=
  t.flatMap fun c => if c = '\n' then '\n' :: List.replicate indent ' ' else [c]

/-- A cause with its number. -/
def numberedCause (cause : String) (number : Nat) : Text :=
  let label := toString number
  List.replicate (5 - label.length) ' ' ++ label.toList ++ ": ".toList
    ++ hanging 7 cause.toList ++ ['\n']

/-- The causes as they are shown. -/
def causeLines : List String → Text
  | [] => []
  | [cause] => "\nCaused by:\n    ".toList ++ hanging 4 cause.toList ++ ['\n']
  | causes =>
    "\nCaused by:\n".toList
      ++ (causes.zipIdx.flatMap fun (cause, number) => numberedCause cause number)

/-- A failure as it is shown. -/
def report (f : Failure) : Text :=
  "Error: ".toList ++ f.message.toList ++ '\n' :: causeLines f.causes

end Failure
end LogPrune
