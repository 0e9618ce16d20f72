import LogPrune.Text.Basic

/-!
# LogPrune.Toml.Basic

TOML values.  Floating-point numbers and dates keep the text they are
written with, since no setting is one.
-/

namespace LogPrune

/-- A TOML value.  The keys of a table are distinct. -/
inductive Toml
  | string (t : Text)
  | integer (n : Int)
  | float (literal : Text)
  | boolean (b : Bool)
  | date (literal : Text)
  | array (items : List Toml)
  | table (entries : List (String × Toml))
  deriving Repr, Inhabited

namespace Toml

/-- The least number beyond the integers, which have 64 bits with sign. -/
def integerBound : Nat := 9223372036854775808

/-- The entry of a key in a list of entries. -/
def find? (key : String) (entries : List (String × α)) : Option α :=
  (entries.find? (·.1 = key)).map (·.2)

/-- Whether a character may stand in a string as it is: all but the control
characters, of which the tab is allowed. -/
def isPlain (c : Char) : Bool := c = '\t' || (0x20 ≤ c.toNat && c.toNat != 0x7F)

/-- Whether a character may stand in a key without quotes. -/
def isBare (c : Char) : Bool := c.isAlphanum || c = '_' || c = '-'

end Toml
end LogPrune
