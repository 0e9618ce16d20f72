import LogPrune.FilePath
import LogPrune.Text.Blank

/-!
# LogPrune.Language

Languages, by their ids: which file extensions belong to one, and how it
writes comments.

Extensions are compared without regard to the case of ASCII letters.  A
language without line comments has a closer besides its opener, so that a
line that is commented out stays well-formed.
-/

namespace LogPrune

/-! ## Extensions -/

/-- The languages and the extensions of their files. -/
def languageTable : List (String × List String) :=
  [("javascript", ["js", "mjs", "cjs"]),
   ("typescript", ["ts"]),
   ("typescriptreact", ["tsx"]),
   ("javascriptreact", ["jsx"]),
   ("python", ["py"]),
   ("java", ["java"]),
   ("php", ["php"]),
   ("csharp", ["cs"]),
   ("go", ["go"]),
   ("rust", ["rs"]),
   ("swift", ["swift"]),
   ("c", ["c", "h"]),
   ("cpp", ["cpp", "cc", "cxx", "hpp"]),
   ("ruby", ["rb"]),
   ("dart", ["dart"]),
   ("shellscript", ["sh", "bash", "zsh"]),
   ("sql", ["sql"]),
   ("html", ["html", "htm"]),
   ("css", ["css"]),
   ("scss", ["scss"]),
   ("less", ["less"]),
   ("markdown", ["md"])]

/-- The extensions of the files of a language, without the dot. -/
def extensionsOf (language : String) : List String :=
  ((languageTable.find? (·.1 = language)).map (·.2)).getD []

/-- A name with its ASCII letters in lower case. -/
def lowerAscii (s : String) : String := String.ofList (s.toList.map Char.toLower)

/-- The language whose files have an extension. -/
def languageOfExtension? (extension : String) : Option String :=
  (languageTable.find? (·.2.contains (lowerAscii extension))).map (·.1)

/-- The language of a file. -/
def FilePath.language? (p : FilePath) : Option String :=
  p.extension?.bind languageOfExtension?

/-! ## Comments -/

/-- What is put before a line to comment it out. -/
def commentOpener (language : String) : String :=
  if ["python", "ruby", "shellscript"].contains language then "# "
  else if language = "sql" then "-- "
  else if ["html", "markdown"].contains language then "<!-- "
  else if language = "css" then "/* "
  else "// "

/-- What is put after a line to comment it out; empty where comments end
with the line. -/
def commentCloser (language : String) : String :=
  if ["html", "markdown"].contains language then " -->"
  else if language = "css" then " */"
  else ""

/-- What comments begin with, in any of the languages. -/
def commentMarkers : List String := ["//", "/*", "<!--", "#", "--"]

/-- Whether a text is itself a comment rather than code. -/
def isComment (t : Text) : Bool :=
  commentMarkers.any fun m => m.toList.isPrefixOf t.trimStart

end LogPrune
