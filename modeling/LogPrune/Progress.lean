/-!
# LogPrune.Progress

How far a run has got.
-/

namespace LogPrune

/-- The percentage of the files that are done, rounded down after computing
with floating-point numbers; zero if there are no files. -/
def percentDone (total processed : Nat) : Nat :=
  if total = 0 then 0
  else (Float.ofNat (min processed total) / Float.ofNat total * 100.0).toUInt32.toNat

end LogPrune
