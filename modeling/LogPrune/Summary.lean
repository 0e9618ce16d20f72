/-!
# LogPrune.Summary

The summary of a run in one line, such as `2 files modified, 5 logs removed`.
-/

namespace LogPrune

/-- A number of things, with the noun in the plural unless there is one. -/
def counted (n : Nat) (noun : String) : String :=
  toString n ++ " " ++ noun ++ (if n = 1 then "" else "s")

/-- The summary of the statements removed and commented out and the files
modified. -/
def changeSummary (removed commented files : Nat) : String :=
  if files = 0 then "No changes made"
  else ", ".intercalate
    ([counted files "file" ++ " modified"]
      ++ (if 0 < removed then [counted removed "log" ++ " removed"] else [])
      ++ (if 0 < commented then [counted commented "log" ++ " commented"] else []))

end LogPrune
