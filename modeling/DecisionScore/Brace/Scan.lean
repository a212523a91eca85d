import DecisionScore.Brace.Condition
import DecisionScore.Brace.Header
import DecisionScore.Breakdown

/-! # Scoring texts with braces, line by line

Constructs, nesting and the bounds of methods and classes are read off the lines.

* A line with a closing brace ends one construct, and whatever method and class are open.
* At most one method and one class are open; a new class head closes the open class.
* A line that looks like a ternary counts only as a ternary. -/

namespace DecisionScore.Brace

open DecisionScore.Text

/-- The state of a scan. -/
structure Scanner where
  /-- The open constructs, innermost first. -/
  nesting : List Construct
  openMethod : Option Scope
  openClass : Option Scope
  result : Breakdown

namespace Scanner

/-- Before the first line. -/
def initial : Scanner := ⟨[], none, none, .baseline⟩

/-- Scores a construct on a line at a depth. -/
def score (s : Scanner) (lineNumber : Nat) (kind : Construct) (depth : Nat)
    (line : List Char) : Scanner :=
  let dc := contribution kind depth (textWeight (conditionText line kind))
  let result := (s.result.score lineNumber dc).record kind depth
  { s with
    openMethod := s.openMethod.map (·.charge dc)
    openClass := s.openClass.map (·.charge dc)
    result :=
      if depth = 0 then result
      else match s.nesting with
        | _ :: parent :: _ => result.noteNested parent (depth - 1) kind
        | _ => result }

/-- Closes the open method, if any. -/
def closeMethod (s : Scanner) : Scanner :=
  match s.openMethod with
  | none => s
  | some m => { s with openMethod := none, result := s.result.closeMethod m }

/-- Closes the open class, if any. -/
def closeClass (s : Scanner) : Scanner :=
  match s.openClass with
  | none => s
  | some c => { s with openClass := none, result := s.result.closeClass c }

/-- Ends the innermost construct and the open method and class. -/
def closeBlock (s : Scanner) : Scanner :=
  ({ s with nesting := s.nesting.drop 1 }.closeMethod).closeClass

/-- Whether a trimmed line is blank or a comment. -/
def isSkippable (line : List Char) : Bool :=
  match line with
  | [] => true
  | '/' :: '/' :: _ => true
  | '/' :: '*' :: _ => true
  | '*' :: _ => true
  | _ => false

/-- Scores what a line of a body starts with. -/
def scoreLine (s : Scanner) (lineNumber : Nat) (line : List Char) : Scanner :=
  let depth := s.nesting.length
  if line.contains '?' && line.contains ':' then s.score lineNumber .ternary depth line
  else
    match leadingKeyword? line with
    | some kind => { s with nesting := kind :: s.nesting }.score lineNumber kind depth line
    | none => s

/-- Reads a trimmed line of a body. -/
def bodyLine (s : Scanner) (lineNumber : Nat) (line : List Char) : Scanner :=
  let s := s.scoreLine lineNumber line
  if line.contains '}' then s.closeBlock else s

/-- The method head a trimmed line is, where no method is open. -/
def opensMethod? (s : Scanner) (excluded : List String) (line : List Char) : Option String :=
  match s.openMethod with
  | some _ => none
  | none => methodHeader? excluded line

/-- Reads a trimmed line. -/
def trimmedLine (excluded : List String) (s : Scanner) (lineNumber : Nat) (line : List Char) :
    Scanner :=
  if isSkippable line then s
  else
    match classHeader? line with
    | some name => { s.closeClass with openClass := some (.start name) }
    | none =>
      match s.opensMethod? excluded line with
      | some name => { s with openMethod := some (.start name) }
      | none => s.bodyLine lineNumber line

/-- Reads a line. -/
def readLine (excluded : List String) (s : Scanner) (lineNumber : Nat) (raw : List Char) :
    Scanner :=
  s.trimmedLine excluded lineNumber (trim raw)

/-- Reads lines, the first of which has the given number. -/
def readLines (excluded : List String) : Nat → List (List Char) → Scanner → Scanner
  | _, [], s => s
  | n, l :: ls, s => readLines excluded (n + 1) ls (s.readLine excluded n l)

/-- Closes what is still open. -/
def finish (s : Scanner) : Breakdown := s.closeMethod.closeClass.result

end Scanner

/-- The breakdown of a text in a language with braces; `extra` are names that start no method
besides those of the language. -/
def breakdown (language : Language) (extra : List String) (source : String) : Breakdown :=
  (Scanner.readLines (language.excludedIdentifiers ++ extra) 1 (splitLines source.toList)
    .initial).finish

end DecisionScore.Brace
