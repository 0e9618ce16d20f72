import LogPrune.Toml.Quoted

/-!
# LogPrune.Toml.Writer

Writing TOML.

The entries of a table that are not tables come first, one a line; then each
table follows under a header of its own, after an empty line.  A table that
holds nothing but tables needs no header.

An array of two or more items has one item a line; other arrays and all
tables inside arrays are written in place.
-/

namespace LogPrune
namespace Toml

/-- A key as it is written: bare if it can be. -/
def writeKey (key : String) : Text :=
  let t := key.toList
  if t != [] && t.all isBare then t
  else StringKind.basic.delimiter ++ escape .basic 0 t ++ StringKind.basic.delimiter

/-- The decimal digits of an integer. -/
def writeInteger (n : Int) : Text := (toString n).toList

mutual

/-- A value in place. -/
def writeValue : Toml → Text
  | string t => writeString t
  | integer n => writeInteger n
  | float literal => literal
  | boolean b => (if b then "true" else "false").toList
  | date literal => literal
  | array [] => ['[', ']']
  | array [v] => '[' :: writeValue v ++ [']']
  | array vs => '[' :: writeItems vs ++ ['\n', ']']
  | table [] => ['\x7b', '\x7d']
  | table (e :: es) => '\x7b' :: ' ' :: writeInPlace e ++ writeMoreInPlace es ++ [' ', '\x7d']

/-- Items on lines of their own. -/
def writeItems : List Toml → Text
  | [] => []
  | v :: vs => "\n    ".toList ++ writeValue v ++ ',' :: writeItems vs

/-- An entry of a table in place. -/
def writeInPlace : String × Toml → Text
  | (key, v) => writeKey key ++ " = ".toList ++ writeValue v

/-- Further entries of a table in place. -/
def writeMoreInPlace : List (String × Toml) → Text
  | [] => []
  | e :: es => ',' :: ' ' :: writeInPlace e ++ writeMoreInPlace es

end

/-- Whether a value is a table. -/
def isTable : Toml → Bool
  | table _ => true
  | _ => false

/-- The entries of a table that are not tables, one a line. -/
def writeEntries (entries : List (String × Toml)) : Text :=
  (entries.filter (!isTable ·.2)).flatMap fun e => writeInPlace e ++ ['\n']

/-- The header of the table at a path. -/
def writeHeader (path : List String) : Text :=
  '[' :: Text.glue '.' (path.map writeKey) ++ [']', '\n']

/-- Whether a table gets a header: not the whole document, and not a table
that holds nothing but tables. -/
def hasHeader (path : List String) (entries : List (String × Toml)) : Bool :=
  path != [] && (entries.isEmpty || entries.any (!isTable ·.2))

/-- The header and the entries of a table, the tables in it apart. -/
def writeTable (path : List String) (entries : List (String × Toml)) : Text :=
  (if hasHeader path entries then writeHeader path else []) ++ writeEntries entries

mutual

/-- The written tables of a value at a path, one by one. -/
def sections (path : List String) : Toml → List Text
  | table entries => writeTable path entries :: entriesSections path entries
  | _ => []

/-- The written tables of entries. -/
def entriesSections (path : List String) : List (String × Toml) → List Text
  | [] => []
  | e :: es => entrySections path e ++ entriesSections path es

/-- The written tables of an entry. -/
def entrySections (path : List String) : String × Toml → List Text
  | (key, v) => sections (path ++ [key]) v

end

/-- The written form of a document. -/
def pretty (v : Toml) : Text := Text.glue '\n' ((sections [] v).filter (· != []))

end Toml
end LogPrune
