import DecisionScore.Construct
import DecisionScore.Text.Word

/-! # Conditions on a line

The text that governs a construct on a line, and its token weight.  A ternary is governed by what
stands before its question mark, any other construct by the first group in parentheses. -/

namespace DecisionScore.Brace

open DecisionScore.Text

/-- The text up to the parenthesis that closes `depth + 1` open ones. -/
def closeGroup? : Nat → List Char → Option (List Char)
  | _, [] => none
  | depth, c :: cs =>
    if c = '(' then (closeGroup? (depth + 1) cs).map (c :: ·)
    else if c = ')' then
      match depth with
      | 0 => some []
      | d + 1 => (closeGroup? d cs).map (c :: ·)
    else (closeGroup? depth cs).map (c :: ·)

/-- The contents of the first group in parentheses, nothing if it is not closed. -/
def firstGroup (line : List Char) : List Char :=
  match line.dropWhile (· != '(') with
  | [] => []
  | _ :: rest => (closeGroup? 0 rest).getD []

/-- The text that governs a construct. -/
def conditionText (line : List Char) (kind : Construct) : List Char :=
  if kind = .ternary then line.takeWhile (· != '?') else firstGroup line

/-- The number of times a character occurs doubled, without overlap. -/
def countPairs (x : Char) : List Char → Nat
  | [] => 0
  | [_] => 0
  | a :: b :: cs => if a = x && b = x then 1 + countPairs x cs else countPairs x (b :: cs)

/-- Whether a character is an arithmetic, relational or assignment symbol. -/
def isOperatorChar (c : Char) : Bool := ['=', '!', '<', '>', '+', '-', '*', '/', '%'].contains c

/-- The number of runs of word characters; `inWord` says whether one is under way. -/
def countWordsFrom : Bool → List Char → Nat
  | _, [] => 0
  | inWord, c :: cs =>
    if isWord c then (if inWord then 0 else 1) + countWordsFrom true cs
    else countWordsFrom false cs

/-- The token weight of a governing text: a clause for every combinator and question mark and one
more, an operator for every combinator and symbol, an operand for every word. -/
def textWeight (text : List Char) : TokenWeight :=
  let logical := countPairs '&' text + countPairs '|' text
  { conds := logical + text.count '?' + 1
    ops := logical + text.countP isOperatorChar
    operands := countWordsFrom false text }

end DecisionScore.Brace
