import DecisionScore.Construct
import DecisionScore.Language
import DecisionScore.Text.Word

/-! # Heads of classes and methods

What the first line of a class, of a method and of a control statement looks like in a language
with braces.  All tests are on a trimmed line.

* A class: modifiers, the word `class`, and a name.
* A method: modifiers, a type and a name before the first parenthesis; after the closing one
  possibly `const` and `throws`, then a brace.
* A control statement: one of seven keywords at the start, as a whole word. -/

namespace DecisionScore.Brace

open DecisionScore.Text

/-- The text after a given beginning. -/
def after? (start : List Char) (line : List Char) : Option (List Char) :=
  if start.isPrefixOf line then some (line.drop start.length) else none

/-- The text after white space, of which there must be some. -/
def afterBlank? : List Char → Option (List Char)
  | [] => none
  | c :: cs => if isBlank c then some (cs.dropWhile isBlank) else none

/-- The text after a given word and the white space behind it. -/
def afterWord? (word : String) (line : List Char) : Option (List Char) :=
  (after? word.toList line).bind afterBlank?

/-! ### Classes -/

/-- Words that may stand before `class`. -/
def classModifiers : List String :=
  ["public", "private", "protected", "abstract", "final", "static", "sealed"]

/-- The text after all leading modifiers; there are at most `fuel` of them. -/
def dropModifiers (modifiers : List String) : Nat → List Char → List Char
  | 0, line => line
  | fuel + 1, line =>
    match modifiers.findSome? fun m => afterWord? m line with
    | some rest => dropModifiers modifiers fuel rest
    | none => line

/-- The name of the class whose head a line is. -/
def classHeader? (line : List Char) : Option String :=
  match afterWord? "class" (dropModifiers classModifiers line.length line) with
  | none => none
  | some rest =>
    match rest.takeWhile isWord with
    | [] => none
    | name => some (String.ofList name)

/-! ### Methods -/

/-- Words that may stand before the type of a method. -/
def methodModifiers : List String :=
  ["public", "private", "protected", "static", "final", "abstract", "synchronized", "native",
   "virtual", "inline", "explicit", "constexpr", "default"]

/-- Words that look like a type or a name but head control statements. -/
def controlWords : List String :=
  ["if", "else", "for", "while", "switch", "catch", "return", "new", "throw", "do"]

/-- Whether a character can stand in a type. -/
def isTypeChar (c : Char) : Bool := isWord c || [':', '<', '>', '[', ']', '*', '&'].contains c

/-- Whether a character can stand in a list of exceptions. -/
def isThrowsChar (c : Char) : Bool := isWord c || c = '.' || c = ',' || isBlank c

/-- The type and the name of the method whose head begins with the given words: all words but
the last two are modifiers. -/
def signature? : List (List Char) → Option (List Char × List Char)
  | [] => none
  | [_] => none
  | [type, name] => if type.all isTypeChar && name.all isWord then some (type, name) else none
  | modifier :: rest =>
    if methodModifiers.any fun m => m.toList = modifier then signature? rest else none

/-- Whether a text opens a body after an optional list of exceptions. -/
def opensBody (tail : List Char) : Bool :=
  match after? "throws".toList tail with
  | none => tail.head? = some '{'
  | some list =>
    (list.head?.any isBlank) && 2 ≤ (list.takeWhile isThrowsChar).length
      && (list.dropWhile isThrowsChar).head? = some '{'

/-- Whether what follows the parameters opens the body of a method. -/
def isMethodTail (tail : List Char) : Bool :=
  let tail := tail.dropWhile isBlank
  match after? "const".toList tail with
  | none => opensBody tail
  | some rest => opensBody (rest.dropWhile isBlank)

/-- The type and the name on a line that has the shape of a method head. -/
def methodShape? (line : List Char) : Option (List Char × List Char) :=
  match line.dropWhile (· != '('), signature? (words (line.takeWhile (· != '('))) with
  | _ :: rest, some found =>
    match rest.dropWhile (· != ')') with
    | _ :: tail => if isMethodTail tail then some found else none
    | [] => none
  | _, _ => none

/-- Whether a word heads control statements. -/
def isControlWord (word : List Char) : Bool := controlWords.any fun w => w.toList = word

/-- The name of the method whose head a line is, unless it is one of the excluded names. -/
def methodHeader? (excluded : List String) (line : List Char) : Option String :=
  match methodShape? line with
  | none => none
  | some (type, name) =>
    if "throw".toList.isPrefixOf line || isControlWord type || isControlWord name
        || excluded.contains (String.ofList name) then none
    else some (String.ofList name)

/-! ### Control statements -/

/-- Whether a text goes on with a word character. -/
def continuesWord (rest : List Char) : Bool := rest.head?.any isWord

/-- Whether a line starts with a given whole word. -/
def startsWithWord (word : String) (line : List Char) : Bool :=
  match after? word.toList line with
  | none => false
  | some rest => !continuesWord rest

/-- Whether a line starts with `else if`. -/
def startsWithElseIf (line : List Char) : Bool :=
  match afterWord? "else" line with
  | none => false
  | some rest => startsWithWord "if" rest

/-- The construct whose keyword a line starts with. -/
def leadingKeyword? (line : List Char) : Option Construct :=
  if startsWithElseIf line then some .elseIf
  else if startsWithWord "if" line then some .ifBranch
  else if startsWithWord "for" line then some .forLoop
  else if startsWithWord "while" line then some .whileLoop
  else if startsWithWord "switch" line then some .switchHead
  else if startsWithWord "case" line then some .caseLabel
  else if startsWithWord "catch" line then some .catchClause
  else none

end DecisionScore.Brace
