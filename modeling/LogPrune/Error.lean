import LogPrune.FilePath
import LogPrune.Glob.Reader

/-!
# LogPrune.Error

What can go wrong, and how users are told.

Each error has one message.  Where it stands for a failure of something
else, the messages of what lies beneath are its causes, outermost first.
-/

namespace LogPrune

/-! ## Errors of the file system -/

/-- Why the file system refuses an operation. -/
inductive IoError
  | notFound
  | alreadyExists
  | notADirectory
  | isADirectory
  | denied
  | tooManyLinks
  | nameTooLong
  /-- The path holds the character with number zero. -/
  | nulInPath
  /-- The bytes of a file are no text. -/
  | invalidText
  deriving DecidableEq, Repr

namespace IoError

/-- A reason of the system with its number. -/
def systemText (reason : String) (number : Nat) : String :=
  reason ++ " (os error " ++ toString number ++ ")"

/-- The reason in words. -/
def message : IoError → String
  | notFound => systemText "No such file or directory" 2
  | denied => systemText "Permission denied" 13
  | alreadyExists => systemText "File exists" 17
  | notADirectory => systemText "Not a directory" 20
  | isADirectory => systemText "Is a directory" 21
  | nameTooLong => systemText "File name too long" 36
  | tooManyLinks => systemText "Too many levels of symbolic links" 40
  | nulInPath => "file name contained an unexpected NUL byte"
  | invalidText => "stream did not contain valid UTF-8"

end IoError

/-! ## Errors of the program -/

/-- Why an operation of the program fails. -/
inductive Error
  | read (path : FilePath) (cause : IoError)
  | write (path : FilePath) (cause : IoError)
  /-- A directory that is searched cannot be entered. -/
  | walk (path : FilePath) (cause : IoError)
  /-- A configuration is not well-formed, or a setting has a wrong type. -/
  | malformedConfig
  /-- A configuration holds a number that its file format cannot. -/
  | unwritableConfig
  | invalidMode (name : String)
  | invalidGlob (glob : String) (cause : GlobError)
  | malformedPattern
  | malformedJournal
  | unsupportedExtension (extension : String)
  /-- There are no rules for a language. -/
  | unknownLanguage (language : String)
  | fileTooLarge (limitKb : Nat)
  | nothingToUndo
  deriving DecidableEq, Repr

namespace Error

/-- A message with the cause behind it. -/
def because (message cause : String) : String := message ++ ": " ++ cause

/-- The message about a directory that cannot be entered. -/
def walkCause (path : FilePath) (cause : IoError) : String :=
  because ("IO error for operation on " ++ path.text) cause.message

/-- The messages of what lies beneath an error, outermost first. -/
def causes : Error → List String
  | read _ cause | write _ cause => [cause.message]
  | walk path cause => [walkCause path cause, cause.message]
  | malformedConfig => ["the text is not a configuration"]
  | unwritableConfig => ["a number is out of range"]
  | invalidGlob glob cause => [cause.message glob]
  | malformedPattern => ["the text is not a pattern"]
  | malformedJournal => ["the text is not a journal"]
  | invalidMode _ | unsupportedExtension _ | unknownLanguage _ | fileTooLarge _
  | nothingToUndo => []

/-- What went wrong, without the cause. -/
def summary : Error → String
  | read path _ => "Failed to read " ++ path.text
  | write path _ => "Failed to write " ++ path.text
  | walk _ _ => "Failed to walk directory"
  | malformedConfig => "Failed to parse config"
  | unwritableConfig => "Failed to serialize config"
  | invalidMode name =>
    "Invalid mode '" ++ name ++ "': mode must be one of: delete, comment, preview"
  | invalidGlob glob _ => "Invalid exclude pattern '" ++ glob ++ "'"
  | malformedPattern => "Invalid pattern"
  | malformedJournal => "Undo journal error"
  | unsupportedExtension extension => "Unsupported file extension: " ++ extension
  | unknownLanguage language => "No detector found for language: " ++ language
  | fileTooLarge limitKb => "File size exceeds limit of " ++ toString limitKb ++ " KB"
  | nothingToUndo => "No undo state available"

/-- The message of an error. -/
def message (e : Error) : String :=
  match e.causes with
  | [] => e.summary
  | cause :: _ => because e.summary cause

end Error
end LogPrune
