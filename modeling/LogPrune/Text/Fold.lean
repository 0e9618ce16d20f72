/-!
# LogPrune.Text.Fold

Comparing letters without regard to case.  Two characters agree when their
simple case foldings do.  One side is always an ASCII character here, and
two characters beyond ASCII fold to an ASCII letter: the long s to `s` and
the Kelvin sign to `k`.
-/

namespace LogPrune

/-- The simple case folding, as far as it ends in an ASCII character. -/
def foldCase (c : Char) : Char :=
  if c = '\u017F' then 's'
  else if c = '\u212A' then 'k'
  else c.toLower

end LogPrune
