/-! # Styled text

Text on a terminal is set off by escape sequences, if colours are wanted at all.  A reset within
the text ends its style, which is then taken up again. -/

namespace DecisionScore

/-- The styles of a report. -/
inductive Style where
  | bold
  | dimmed
  | green
  | yellow
  | cyan
  | boldCyan
  | boldRed
deriving DecidableEq, Repr

namespace Style

/-- The codes of a style. -/
def codes : Style → String
  | bold => "1"
  | dimmed => "2"
  | green => "32"
  | yellow => "33"
  | cyan => "36"
  | boldCyan => "1;36"
  | boldRed => "1;31"

/-- The sequence that takes up a style. -/
def sequence (s : Style) : List Char := ['\x1b', '['] ++ s.codes.toList ++ ['m']

/-- The sequence that ends every style. -/
def reset : List Char := ['\x1b', '[', '0', 'm']

/-- A text with the style taken up again after every reset in it. -/
def resume (s : Style) : List Char → List Char
  | '\x1b' :: '[' :: '0' :: 'm' :: rest => reset ++ s.sequence ++ resume s rest
  | c :: rest => c :: resume s rest
  | [] => []

/-- A text in a style. -/
def paint (color : Bool) (s : Style) (text : String) : String :=
  if color then String.ofList (s.sequence ++ s.resume text.toList ++ reset) else text

end Style

end DecisionScore
