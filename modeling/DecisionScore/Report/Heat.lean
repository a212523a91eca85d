import DecisionScore.Breakdown
import DecisionScore.Config
import DecisionScore.Text.Blank

/-! # The heat of lines

Every line of a text with its score and the band the score lies in. -/

namespace DecisionScore

/-- The band of a score. -/
inductive HeatLevel where
  | low
  | medium
  | high
deriving DecidableEq, Repr

namespace HeatLevel

/-- The band a score lies in; the high band is looked at first. -/
def classify (bands : Bands) (score : Nat) : HeatLevel :=
  if bands.high ≤ score then high else if bands.medium ≤ score then medium else low

/-- The name of a band. -/
def label : HeatLevel → String
  | low => "low"
  | medium => "medium"
  | high => "high"

end HeatLevel

namespace Text

/-- A line without the carriage return at its end. -/
def dropReturn (line : List Char) : List Char :=
  if line.getLast? = some '\r' then line.dropLast else line

/-- The pieces between line feeds as lines: the last one counts only if there is something on it,
and a carriage return belongs to the end of a line that has one. -/
def finishLines : List (List Char) → List (List Char)
  | [] => []
  | [last] => if last.isEmpty then [] else [last]
  | line :: rest => dropReturn line :: finishLines rest

/-- The lines of a text as they are shown. -/
def shownLines (source : List Char) : List (List Char) := finishLines (splitLines source)

end Text

/-- A line of the heat listing. -/
structure HeatRow where
  line : Nat
  score : Nat
  text : List Char
deriving DecidableEq, Repr

namespace HeatRow

/-- The rows of lines that are numbered from `line` on. -/
def number (b : Breakdown) (line : Nat) : List (List Char) → List HeatRow
  | [] => []
  | text :: rest => ⟨line, b.lineScore line, text⟩ :: number b (line + 1) rest

/-- One row for every line of a text. -/
def listing (source : String) (b : Breakdown) : List HeatRow :=
  number b 1 (Text.shownLines source.toList)

end HeatRow

end DecisionScore
