import LogPrune.Text.Basic

/-!
# LogPrune.Sample

A small program with debug output, to try the command line on: it adds two
numbers and says so.
-/

namespace LogPrune
namespace Sample

/-- The sum of two numbers. -/
def add (a b : Int) : Int := a + b

/-- What the sample program prints. -/
def lines : List String := [
  "Starting application",
  "Result: " ++ toString (add 10 20),
  "Important message",
  "This should be removed"]

/-- The output of the sample program. -/
def stdout : Text := lines.flatMap fun s => s.toList ++ ['\n']

end Sample
end LogPrune
