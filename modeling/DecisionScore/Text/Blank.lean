/-! # Blank characters

The characters of the Unicode property `White_Space`, trimming, and splitting at them. -/

namespace DecisionScore.Text

/-- Whether a character is white space. -/
def isBlank (c : Char) : Bool :=
  let n := c.toNat
  (9 ≤ n && n ≤ 13) || n == 0x20 || n == 0x85 || n == 0xA0 || n == 0x1680
    || (0x2000 ≤ n && n ≤ 0x200A) || n == 0x2028 || n == 0x2029 || n == 0x202F || n == 0x205F
    || n == 0x3000

/-- The text without white space at its end. -/
def trimEnd : List Char → List Char
  | [] => []
  | c :: cs =>
    match trimEnd cs with
    | [] => if isBlank c then [] else [c]
    | d :: ds => c :: d :: ds

/-- The text without white space at either end. -/
def trim (cs : List Char) : List Char := trimEnd (cs.dropWhile isBlank)

/-- The pieces of a text between white space; `pending` is the piece under way, reversed. -/
def wordsFrom (pending : List Char) : List Char → List (List Char)
  | [] => if pending.isEmpty then [] else [pending.reverse]
  | c :: cs =>
    if isBlank c then
      if pending.isEmpty then wordsFrom [] cs else pending.reverse :: wordsFrom [] cs
    else wordsFrom (c :: pending) cs

/-- The pieces of a text between white space. -/
def words (cs : List Char) : List (List Char) := wordsFrom [] cs

/-- The pieces of a text between separators: always at least one. -/
def pieces {α : Type} [DecidableEq α] (separator : α) : List α → List (List α)
  | [] => [[]]
  | c :: cs =>
    if c = separator then [] :: pieces separator cs
    else
      match pieces separator cs with
      | [] => [[c]]
      | l :: ls => (c :: l) :: ls

/-- The pieces of a text between line feeds: always at least one. -/
def splitLines (cs : List Char) : List (List Char) := pieces '\n' cs

end DecisionScore.Text
