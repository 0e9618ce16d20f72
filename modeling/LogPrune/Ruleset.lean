import LogPrune.Config
import LogPrune.Pattern.Statement
import LogPrune.Rule

/-!
# LogPrune.Ruleset

The rules of each language.  A ruleset serves one or more languages and
builds its rules from the settings; the registry lists them all and is how a
language finds its rules.

A call that is commented out is recognised apart from a live one: languages
with line comments have a rule for a comment that starts like a log call, and
those of the C family one for block comments that hold such a call.
-/

namespace LogPrune

/-- The rules of some languages. -/
structure Ruleset where
  /-- The ids of the languages. -/
  languages : List String
  /-- The extensions of their files. -/
  extensions : List String
  /-- The rules under given settings, in the order in which they are tried. -/
  rules : Config → List Rule

namespace Ruleset

open Regex Pattern

/-! ## Rules for comments -/

/-- The rule for line comments that hold a log call. -/
def lineCommentRule (marker description : String) (priority : Nat) : Rule where
  pattern := commentedCall marker.toList
  description := description
  priority := priority

/-- The rule for block comments in which a pattern occurs. -/
def blockCommentRule (description : String) (calls : Regex) : Rule where
  pattern := blockComment
  description := description
  priority := 7
  extent := .multiLine
  filter := some ⟨calls, false⟩

/-- The rules for commented calls in a language of the C family. -/
def slashComments (config : Config) (inLine inBlock : String) (calls : Regex) : List Rule :=
  if config.removeCommentedLogs then
    [lineCommentRule "//" inLine 8, blockCommentRule inBlock calls]
  else []

/-- The rule for commented calls in a language with one kind of comment. -/
def markerComments (config : Config) (marker description : String) : List Rule :=
  if config.removeCommentedLogs then [lineCommentRule marker description 8] else []

/-! ## Scripts -/

/-- The rules of JavaScript and its dialects.  With no console method
switched on there is no console rule, live or commented. -/
def consoleRules (description : String) (config : Config) : List Rule :=
  let methods := config.logTypes.javascript.methods
  (if methods.isEmpty then []
    else [{ pattern := consoleCall methods, description := description, priority := 10 }])
  ++ (if config.logTypes.debugger then
      [{ pattern := debuggerStatement, description := "Debugger statements", priority := 5 }]
    else [])
  ++ (if methods.isEmpty then []
    else slashComments config "Single-line commented console statements"
      "Block commented console statements"
      (lit "console." ++ .group (oneOf ["log", "debug", "info", "warn", "error"])))

def javascript : Ruleset where
  languages := ["javascript", "javascriptreact"]
  extensions := ["js", "mjs", "cjs", "jsx"]
  rules := consoleRules "JavaScript console.* statements"

def typescript : Ruleset where
  languages := ["typescript", "typescriptreact"]
  extensions := ["ts", "tsx"]
  rules := consoleRules "TypeScript console.* statements"

def python : Ruleset where
  languages := ["python"]
  extensions := ["py"]
  rules config :=
    if config.logTypes.allOtherLogs then
      { pattern := printCall, description := "Python print() statements", priority := 10 }
        :: markerComments config "#" "Commented print statements"
    else []

def php : Ruleset where
  languages := ["php"]
  extensions := ["php"]
  rules config :=
    { pattern := phpOutput, description := "PHP echo/print/var_dump statements", priority := 10 }
      :: slashComments config "Commented PHP debug statements"
        "Block commented PHP debug statements" (.group (oneOf ["echo", "print", "var_dump"]))

def ruby : Ruleset where
  languages := ["ruby"]
  extensions := ["rb"]
  rules config :=
    { pattern := rubyPuts, description := "Ruby puts/print/p statements", priority := 10 }
      :: markerComments config "#" "Commented print statements"

def shell : Ruleset where
  languages := ["shellscript"]
  extensions := ["sh", "bash", "zsh"]
  rules config :=
    { pattern := shellEcho, description := "Shell echo statements", priority := 10 }
      :: markerComments config "#" "Commented echo statements"

def sql : Ruleset where
  languages := ["sql"]
  extensions := ["sql"]
  rules config :=
    { pattern := sqlPrint, description := "SQL PRINT/RAISERROR statements", priority := 10 }
      :: markerComments config "--" "Commented PRINT statements"

/-! ## Compiled languages -/

def java : Ruleset where
  languages := ["java"]
  extensions := ["java"]
  rules config :=
    { pattern := javaStreamCall, description := "Java System.out/err statements", priority := 10 }
      :: slashComments config "Commented System.out statements"
        "Block commented System.out statements"
        (lit "System." ++ .group (oneOf ["out", "err"]) ++ lit "."
          ++ .group (oneOf ["print", "println"]))

def csharp : Ruleset where
  languages := ["csharp"]
  extensions := ["cs"]
  rules config :=
    { pattern := csharpConsoleCall, description := "C# Console.* statements", priority := 10 }
      :: slashComments config "Commented Console statements" "Block commented Console statements"
        (lit "Console." ++ .group (oneOf ["Write", "WriteLine"]))

def go : Ruleset where
  languages := ["go"]
  extensions := ["go"]
  rules config :=
    { pattern := goPrintCall, description := "Go fmt.Print* statements", priority := 10 }
      :: slashComments config "Commented fmt statements" "Block commented fmt statements"
        (lit "fmt." ++ .group (oneOf ["Print", "Printf", "Println"]))

def rust : Ruleset where
  languages := ["rust"]
  extensions := ["rs"]
  rules config :=
    { pattern := rustPrintMacro, description := "Rust println!/print!/dbg! macros", priority := 10 }
      :: slashComments config "Commented print macros" "Block commented print macros"
        (.group (oneOf ["println!", "print!", "dbg!"]))

/-- The rules of a language whose only log statement is `print(...)`. -/
def printRules (description : String) (config : Config) : List Rule :=
  { pattern := printCall, description := description, priority := 10 }
    :: slashComments config "Commented print statements" "Block commented print statements"
      (lit "print" ++ .many .blank ++ lit "(")

def swift : Ruleset where
  languages := ["swift"]
  extensions := ["swift"]
  rules := printRules "Swift print() statements"

def dart : Ruleset where
  languages := ["dart"]
  extensions := ["dart"]
  rules := printRules "Dart print() statements"

def c : Ruleset where
  languages := ["c"]
  extensions := ["c", "h"]
  rules config :=
    { pattern := cPrintCall, description := "C printf/fprintf statements", priority := 10 }
      :: slashComments config "Commented printf statements" "Block commented printf statements"
        (.group (oneOf ["printf", "fprintf"]))

def cpp : Ruleset where
  languages := ["cpp"]
  extensions := ["cpp", "cc", "cxx", "hpp"]
  rules config :=
    { pattern := coutChain, description := "C++ cout statements", priority := 10 }
      :: { pattern := cPrintCall, description := "C++ printf statements", priority := 9 }
      :: slashComments config "Commented output statements" "Block commented output statements"
        (.group (oneOf ["cout", "printf"]))

/-! ## Markup and style sheets

In these languages comments of any content are taken, and the whole set of
rules can be switched off. -/

/-- Whether comments in markup and style sheets are taken. -/
def takesComments (config : Config) : Bool :=
  config.htmlCssHandling && config.removeCommentedLogs

/-- The rule for comments of any content. -/
def anyComment (pattern : Pattern) (description : String) : Rule where
  pattern := pattern
  description := description
  priority := 5
  extent := .multiLine

def html : Ruleset where
  languages := ["html"]
  extensions := ["html", "htm"]
  rules config :=
    (if config.htmlCssHandling then
      [{ pattern := inlineConsoleCall, description := "HTML inline console statements",
         priority := 10 }]
      else [])
    ++ if takesComments config then [anyComment markupComment "HTML comments"] else []

def css : Ruleset where
  languages := ["css"]
  extensions := ["css"]
  rules config :=
    if takesComments config then [anyComment blockComment "CSS block comments"] else []

/-- The rules of a style sheet language with line comments. -/
def styleRules (inLine inBlock : String) (config : Config) : List Rule :=
  if takesComments config then
    [lineCommentRule "//" inLine 5, anyComment blockComment inBlock]
  else []

def scss : Ruleset where
  languages := ["scss"]
  extensions := ["scss"]
  rules := styleRules "SCSS single-line comments" "SCSS block comments"

def less : Ruleset where
  languages := ["less"]
  extensions := ["less"]
  rules := styleRules "Less single-line comments" "Less block comments"

def markdown : Ruleset where
  languages := ["markdown"]
  extensions := ["md"]
  rules config :=
    if takesComments config then [anyComment markupComment "Markdown HTML comments"] else []

/-! ## The registry -/

/-- All rulesets, in the order in which languages are listed. -/
def registry : List Ruleset :=
  [javascript, typescript, python, java, php, csharp, go, rust, swift, c, cpp, ruby, dart,
   shell, sql, html, css, scss, less, markdown]

/-- The ruleset of a language. -/
def forLanguage? (language : String) : Option Ruleset :=
  registry.find? (·.languages.contains language)

/-- The ids of all languages with a ruleset. -/
def supportedLanguages : List String := registry.flatMap (·.languages)

end Ruleset
end LogPrune
