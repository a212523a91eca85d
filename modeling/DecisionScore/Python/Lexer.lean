import DecisionScore.Python.Layout
import DecisionScore.Text.Identifier

/-! # Reading tokens

`Lexer.read` gives the next token at a place, among those the grammar can use.  Layout and strings
come first, then the longest of the usable tokens.  A word is read as a keyword where that keyword
can be used, and as an identifier elsewhere. -/

namespace DecisionScore.Python.Lexer

open DecisionScore.Text

/-! ### Lengths of tokens

Each function gives the number of characters of a token at the front of a text, or zero. -/

/-- Whether a character may stand between any two tokens. -/
def isBlank (c : Char) : Bool :=
  c = ' ' || c = '\t' || c = '\r' || c = '\n' || c = '\x0c' || c = '\ufeff' || c = '\u2060'
    || c = '\u200b'

/-- A word. -/
def wordLength : List Char → Nat
  | [] => 0
  | c :: cs => if isIdentifierStart c then 1 + (cs.takeWhile isIdentifierContinue).length else 0

/-- Digits in groups, each group with an underscore after it or not; `inGroup` says whether a
group has begun. -/
def groupedFrom (isDigit : Char → Bool) : Bool → List Char → Nat
  | _, [] => 0
  | inGroup, c :: cs =>
    if isDigit c then 1 + groupedFrom isDigit true cs
    else if inGroup && c = '_' then 1 + groupedFrom isDigit false cs
    else 0

/-- Decimal digits in groups, each group with an underscore after it or not. -/
def decimalLength (cs : List Char) : Nat := groupedFrom Char.isDigit false cs

/-- Digits in groups, each group with an underscore before it or not. -/
def ledDigits (isDigit : Char → Bool) : List Char → Nat
  | [] => 0
  | c :: cs =>
    if isDigit c then 1 + ledDigits isDigit cs
    else if c = '_' then
      match cs with
      | d :: ds => if isDigit d then 2 + ledDigits isDigit ds else 0
      | [] => 0
    else 0

/-- One character of a set, or none. -/
def oneOf (set : List Char) : List Char → Nat
  | [] => 0
  | c :: _ => if set.contains c then 1 else 0

/-- Whether a character is a digit of the base with the given letter. -/
def isDigitOf (base : Char) (c : Char) : Bool :=
  if base = 'x' || base = 'X' then c.isDigit || ('a' ≤ c && c ≤ 'f') || ('A' ≤ c && c ≤ 'F')
  else if base = 'o' || base = 'O' then '0' ≤ c && c ≤ '7'
  else if base = 'b' || base = 'B' then c = '0' || c = '1'
  else false

/-- A number with a base in front of it. -/
def basedLength : List Char → Nat
  | '0' :: b :: cs =>
    let n := ledDigits (isDigitOf b) cs
    if n = 0 then 0 else 2 + n + oneOf ['l', 'L'] (cs.drop n)
  | _ => 0

/-- An integer. -/
def integerLength (cs : List Char) : Nat :=
  let n := decimalLength cs
  let decimal := if n = 0 then 0 else n + oneOf ['l', 'L', 'j', 'J'] (cs.drop n)
  max (basedLength cs) decimal

/-- An exponent. -/
def exponentLength : List Char → Nat
  | [] => 0
  | e :: cs =>
    if e = 'e' || e = 'E' then
      let sign := oneOf ['+', '-'] cs
      let n := decimalLength (cs.drop sign)
      if n = 0 then 0 else 1 + sign + n
    else 0

/-- A number with a point or an exponent. -/
def floatLength (cs : List Char) : Nat :=
  let whole := decimalLength cs
  let afterWhole := cs.drop whole
  let body :=
    match afterWhole with
    | '.' :: ds =>
      let part := decimalLength ds
      if whole = 0 && part = 0 then 0
      else whole + 1 + part + exponentLength (ds.drop part)
    | _ =>
      let e := exponentLength afterWhole
      if whole = 0 || e = 0 then 0 else whole + e
  if body = 0 then 0 else body + oneOf ['l', 'L', 'j', 'J'] (cs.drop body)

/-- A comment. -/
def commentLength : List Char → Nat
  | '#' :: cs => 1 + (cs.takeWhile fun c => c != '\n' && c != '\x00').length
  | _ => 0

/-- A backslash that joins two lines. -/
def joinLength : List Char → Nat
  | '\\' :: '\n' :: _ => 2
  | '\\' :: '\r' :: '\n' :: _ => 3
  | '\\' :: '\x00' :: _ => 2
  | _ => 0

/-- A conversion in an interpolation. -/
def conversionLength : List Char → Nat
  | '!' :: c :: _ => if 'a' ≤ c && c ≤ 'z' then 2 else 0
  | _ => 0

/-- Exactly `n` characters of a class. -/
def exactly (n : Nat) (p : Char → Bool) (cs : List Char) : Bool :=
  (cs.take n).length = n && (cs.take n).all p

/-- An escape sequence in a string. -/
def escapeLength : List Char → Nat
  | '\\' :: c :: cs =>
    if c = 'u' && exactly 4 (isDigitOf 'x') cs then 6
    else if c = 'U' && exactly 8 (isDigitOf 'x') cs then 10
    else if c = 'x' && exactly 2 (isDigitOf 'x') cs then 4
    else if exactly 3 Char.isDigit (c :: cs) then 4
    else if c = '\n' then 2
    else if c = '\r' && cs.head? = some '\n' then 3
    else if ['\'', '"', 'a', 'b', 'f', 'r', 'n', 't', 'v', '\\'].contains c then 2
    else if c = 'N' && cs.head? = some '{' then
      let inner := ((cs.drop 1).takeWhile fun x => x != '}' && x != '\x00').length
      if inner != 0 && (cs.drop (1 + inner)).head? = some '}' then 4 + inner else 0
    else 0
  | _ => 0

/-- The text of a format specifier. -/
def formatTextLength (cs : List Char) : Nat :=
  (cs.takeWhile fun c => c != '{' && c != '}' && c != '\n' && c != '\x00').length

/-! ### The longest token -/

/-- The longer of two tokens, the first one where they are equally long. -/
def longer (a b : Nat × Token) : Nat × Token := if a.1 < b.1 then b else a

/-- The longest usable operator or punctuation mark. -/
def markAt (accepts : Token → Bool) (cs : List Char) : Nat × Token :=
  match Token.marks.find? fun m => m.1.isPrefixOf cs && accepts m.2 with
  | some m => (m.1.length, m.2)
  | none => (0, .endOfText)

/-- Tokens that may be told apart from words only by what the grammar can use. -/
def word (accepts : Token → Bool) (text : String) : Token :=
  match Token.keyword? text with
  | some k => if accepts k then k else .identifier
  | none => .identifier

/-- The longest usable token at the front of a text that starts with no blank. -/
def longest (accepts : Token → Bool) (cs : List Char) : Nat × Token :=
  let usable (t : Token) (n : Nat) : Nat × Token := (if accepts t then n else 0, t)
  let n := wordLength cs
  [(n, word accepts (String.ofList (cs.take n))),
    usable .integer (integerLength cs),
    usable .float (floatLength cs),
    (commentLength cs, .comment),
    (joinLength cs, .lineContinuation),
    usable .typeConversion (conversionLength cs)].foldl longer (markAt accepts cs)

/-- The text between two places. -/
def between (first last : Cursor) : String :=
  String.ofList (first.rest.take (last.offset - first.offset))

/-- A token found without layout: where it starts, and its length. -/
def plain (accepts : Token → Bool) (c : Cursor) : Option (Token × Cursor × Nat) :=
  let escape := if accepts .escapeSequence then escapeLength c.rest else 0
  let blank := (c.rest.takeWhile isBlank).length
  let breaks := (c.rest.takeWhile (· = '\n')).length
  let text := formatTextLength (c.rest.drop breaks)
  if accepts .formatText && text != 0 then some (.formatText, c.skip breaks, text)
  else if escape != 0 then some (.escapeSequence, c, escape)
  else
    let first := c.skip blank
    let (n, t) := longest accepts first.rest
    if n != 0 then some (t, first, n)
    else if accepts .loneBackslash && c.peek = '\\' then some (.loneBackslash, c, 1)
    else if first.atEnd && accepts .endOfText then some (.endOfText, first, 0)
    else none

/-- The next token. -/
def read (l : Layout) (accepts : Token → Bool) (c : Cursor) : Option Scanned :=
  match l.scan accepts c with
  | some s => some s
  | none => (plain accepts c).map fun (t, first, n) => ⟨t, first, first.skip n, l⟩

end DecisionScore.Python.Lexer
