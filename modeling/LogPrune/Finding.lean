import LogPrune.Marker
import LogPrune.Rule
import LogPrune.Text.Blank

/-!
# LogPrune.Finding

Finding the log statements of a text.

1. The candidates are the hits of all rules, rule by rule, without the
   blanks at their ends; empty ones and those that a filter refuses are left
   out.
2. Candidates are ranked: earlier ones first, of those that start together
   the longer, of equally long ones that of higher priority, then that of the
   earlier rule.
3. In that order each candidate is accepted unless it starts inside the last
   one accepted.

A call that is commented out is thus one finding, the comment, and not a
comment and a call inside it.
-/

namespace LogPrune

/-! ## Candidates -/

/-- A hit of a rule, without the blanks at its end. -/
structure Candidate where
  start : Nat
  text : Text
  rule : Rule

namespace Candidate

/-- The offset just behind a candidate. -/
def stop (c : Candidate) : Nat := c.start + c.text.size

/-- Whether a candidate may stand before another in the ranking. -/
def ranksBefore (a b : Candidate) : Bool :=
  a.start < b.start
    || (a.start = b.start && (b.text.size < a.text.size
      || (a.text.size = b.text.size && b.rule.priority ≤ a.rule.priority)))

/-- The candidate of a hit, if there is one. -/
def ofHit? (rule : Rule) (h : Hit) : Option Candidate :=
  let text := Text.trimEnd h.text
  if text = [] then none
  else if rule.accepts text then some ⟨h.start, text, rule⟩ else none

/-- The candidates of some rules in a text, rule by rule. -/
def all (content : Text) (rules : List Rule) : List Candidate :=
  rules.flatMap fun rule => (rule.pattern.hits content).filterMap (ofHit? rule)

/-- The candidates accepted in a ranked list, given how far the last one
before them reaches. -/
def accepted (covered : Nat) : List Candidate → List Candidate
  | [] => []
  | c :: cs => if c.start < covered then accepted covered cs else c :: accepted c.stop cs

end Candidate

/-! ## Findings -/

/-- A log statement in a text.  Lines count from zero, and characters are
byte offsets within their line. -/
structure Finding where
  text : Text
  startLine : Nat
  endLine : Nat
  startChar : Nat
  endChar : Nat
  description : String
  priority : Nat
  /-- Whether a marker protects the statement. -/
  keep : Bool
  deriving DecidableEq, Repr

namespace Finding

/-- Whether the statement stands on one line. -/
def onOneLine (f : Finding) : Bool := f.startLine = f.endLine

/-- The finding of a candidate in the text with the given lines, which have
the given sizes. -/
def ofCandidate (tags : List String) (lines : List Text) (sizes : List Nat) (c : Candidate) :
    Finding :=
  let (startLine, startChar) := Text.locate sizes c.start
  let (endLine, lastChar) := Text.locate sizes (c.stop - 1)
  { text := c.text
    startLine, endLine, startChar
    endChar := lastChar + 1
    description := c.rule.description
    priority := c.rule.priority
    keep := c.rule.heedsMarkers && isProtectedRange tags lines startLine endLine }

/-- The log statements of a text, in order. -/
def all (content : Text) (rules : List Rule) (tags : List String) : List Finding :=
  let ranked := (Candidate.all content rules).mergeSort Candidate.ranksBefore
  let lines := content.lines
  (Candidate.accepted 0 ranked).map (ofCandidate tags lines (lines.map Text.size))

end Finding
end LogPrune
