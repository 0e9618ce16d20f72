import LogPrune.Text.Basic

/-!
# LogPrune.Text.Blank

Blank characters and trimming.  A character is blank when it has the
Unicode property White_Space, which is wider than ASCII blanks (no-break
and ideographic spaces count) and leaves out zero-width characters.
-/

namespace LogPrune

/-- The characters with the Unicode property White_Space. -/
def isBlank (c : Char) : Bool :=
  let n := c.toNat
  (9 ≤ n && n ≤ 13) || n == 0x20 || n == 0x85 || n == 0xA0 || n == 0x1680
    || (0x2000 ≤ n && n ≤ 0x200A) || n == 0x2028 || n == 0x2029 || n == 0x202F
    || n == 0x205F || n == 0x3000

namespace Text

/-- A text without the blanks at its start. -/
def trimStart (t : Text) : Text := t.dropWhile isBlank

/-- A text without the blanks at its end. -/
def trimEnd (t : Text) : Text := (t.reverse.dropWhile isBlank).reverse

/-- A text without the blanks at both ends. -/
def trim (t : Text) : Text := trimEnd (trimStart t)

end Text
end LogPrune
