import LogPrune.Pattern.Search

/-!
# LogPrune.Rule

A rule says which hits of a pattern are log statements, and how they are
reported.
-/

namespace LogPrune

/-- Whether the hits of a rule are expected to stay on one line. -/
inductive Extent
  | singleLine
  | multiLine
  deriving DecidableEq, Repr

/-- A rule for recognising log statements. -/
structure Rule where
  pattern : Pattern
  description : String
  /-- Of two hits that start together and are equally long, the one of
  higher priority is reported. -/
  priority : Nat
  extent : Extent := .singleLine
  /-- Whether keep markers protect the hits. -/
  heedsMarkers : Bool := true
  /-- A hit only counts when its text also holds a match of the filter. -/
  filter : Option Pattern := none
  deriving Repr

/-- Whether the filter of a rule lets a text pass. -/
def Rule.accepts (r : Rule) (t : Text) : Bool := r.filter.all (·.occursIn t)

end LogPrune
