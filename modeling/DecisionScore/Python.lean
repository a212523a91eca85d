import DecisionScore.Python.Parse
import DecisionScore.Python.Walk

/-! # Scoring Python texts

A text is parsed and its tree is walked.  A text that has no complete reading has the baseline
breakdown. -/

namespace DecisionScore.Python

/-- The breakdown of a Python text. -/
def breakdown (source : String) : Breakdown :=
  match parse? source with
  | none => .baseline
  | some tree => Walk.breakdown tree

end DecisionScore.Python
