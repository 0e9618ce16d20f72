import LogPrune.Pattern.Basic

/-!
# LogPrune.Pattern.Statement

The patterns of log statements and of comments that may hold one.

Recognition is textual.  An argument list is a pair of brackets whose inside
has brackets at most one level deep; it may run over several lines, so a call
spread over lines is one match.  Patterns of calls that end a statement take
in a semicolon and the blanks before it.
-/

namespace LogPrune

namespace Regex

/-- A character other than a round bracket. -/
def noBracket : Charset := .except ['(', ')']

/-- A bracketed argument list with at most one level of brackets inside. -/
def arguments : Regex :=
  lit "(" ++ .repeated (.plainGroup (.choice (.one noBracket)
    (lit "(" ++ .many noBracket ++ lit ")"))) ++ lit ")"

/-- Blanks and then an argument list. -/
def spacedArguments : Regex := .many .blank ++ arguments

/-- Blanks and then perhaps a semicolon. -/
def terminator : Regex := .many .blank ++ .optional (lit ";")

/-- Everything up to a semicolon, with the semicolon if there is one. -/
def throughSemicolon : Regex := .many1 (.except [';']) ++ .optional (lit ";")

/-- Blanks and then the rest of a line, which is not empty. -/
def spacedLine : Regex := .many1 .blank ++ .many1 (.except ['\n'])

end Regex

namespace Pattern

open Regex

/-! ## Calls -/

/-- The console methods that count as logging when none are named. -/
def consoleMethods : List String :=
  ["log", "debug", "info", "warn", "error", "trace", "dir", "dirxml", "table", "group",
   "groupCollapsed", "groupEnd", "time", "timeEnd", "timeLog", "assert", "count",
   "countReset", "profile", "profileEnd", "clear"]

/-- A call of one of the console methods named, or of any of them if none
are named. -/
def consoleCall (methods : List String) : Pattern where
  body := lit "console." ++ .group (oneOf (if methods.isEmpty then consoleMethods else methods))
    ++ spacedArguments ++ terminator

/-- A console call in the scripts of a page. -/
def inlineConsoleCall : Pattern where
  body := lit "console." ++ .group (oneOf ["log", "debug", "info", "warn", "error"])
    ++ spacedArguments ++ terminator

/-- A plain `print(...)` call. -/
def printCall : Pattern where
  body := lit "print" ++ spacedArguments

/-- Printing to one of the two streams of Java's `System`. -/
def javaStreamCall : Pattern where
  body := lit "System." ++ .group (oneOf ["out", "err"]) ++ lit "."
    ++ .group (oneOf ["print", "println", "printf"]) ++ spacedArguments ++ terminator

/-- An `echo` or a dump of PHP, through its semicolon. -/
def phpOutput : Pattern where
  body := .group (oneOf ["echo", "print", "var_dump", "print_r", "var_export"])
    ++ .many .blank ++ .one (.blankOr ['(', ')']) ++ throughSemicolon

/-- A call on the `Console` class of C#. -/
def csharpConsoleCall : Pattern where
  body := lit "Console." ++ .group (oneOf ["Write", "WriteLine", "Error", "Out"])
    ++ spacedArguments ++ terminator

/-- A printing call of Go's `fmt` package. -/
def goPrintCall : Pattern where
  body := lit "fmt." ++ .group (oneOf ["Print", "Printf", "Println", "Fprint", "Fprintf",
    "Fprintln", "Sprint", "Sprintf", "Sprintln"]) ++ spacedArguments

/-- A printing macro of Rust. -/
def rustPrintMacro : Pattern where
  body := .group (oneOf ["println!", "print!", "dbg!", "eprintln!", "eprint!"])
    ++ spacedArguments

/-- A call of the `printf` family of C. -/
def cPrintCall : Pattern where
  body := .group (oneOf ["printf", "fprintf", "sprintf", "snprintf"])
    ++ spacedArguments ++ terminator

/-- A chain of insertions into `cout`, through its semicolon. -/
def coutChain : Pattern where
  body := .optional (.group (lit "std::")) ++ lit "cout" ++ .many .blank ++ lit "<<"
    ++ throughSemicolon

/-- A `puts`, `print` or `p` of Ruby with arguments on its line; the word
edge keeps it out of longer names. -/
def rubyPuts : Pattern where
  body := .wordEdge ++ .group (oneOf ["puts", "print", "p"]) ++ spacedLine

/-- An `echo` of a shell with arguments on its line. -/
def shellEcho : Pattern where
  body := lit "echo" ++ spacedLine

/-- A `PRINT` or `RAISERROR` of SQL, in either case. -/
def sqlPrint : Pattern where
  body := .group (oneOf ["PRINT", "RAISERROR"]) ++ spacedLine
  ignoreCase := true

/-- A `debugger` statement. -/
def debuggerStatement : Pattern where
  body := lit "debugger" ++ terminator

/-! ## Comments -/

/-- The beginnings of calls that mark a comment as a log statement that was
commented out. -/
def commentedCalls : Regex :=
  oneOf ["console.", "print(", "System.out", "echo", "fmt.", "println!", "cout"]

/-- A line comment that holds a log call, to the end of its line. -/
def commentedCall (marker : Text) : Pattern where
  body := .text marker ++ .many .blank ++ .group commentedCalls ++ .many .sameLine ++ .lineEnd

/-- A comment from its opener to the first closer after it. -/
def commentBetween (opener closer : Text) : Pattern where
  body := .text opener ++ .fewest .any ++ .text closer

/-- A block comment of the C family. -/
def blockComment : Pattern := commentBetween "/*".toList "*/".toList

/-- A comment of HTML. -/
def markupComment : Pattern := commentBetween "<!--".toList "-->".toList

end Pattern
end LogPrune
