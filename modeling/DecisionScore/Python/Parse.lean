import DecisionScore.Grammar.Run
import DecisionScore.Python.Grammar
import DecisionScore.Python.Lexer

/-! # Parsing Python

`parse?` gives the tree of a text, or nothing if the text has no complete reading. -/

namespace DecisionScore.Python

open Grammar

/-- The kind of leaf a token is shown as, if at all. -/
def Token.kind? : Token → Option Kind
  | .identifier => some .identifier
  | .integer => some .integer
  | .float => some .float
  | .kwTrue => some .trueLiteral
  | .kwFalse => some .falseLiteral
  | .kwNone => some .noneLiteral
  | .dots => some .ellipsis
  | .comment => some .comment
  | .lineContinuation => some .lineContinuation
  | .typeConversion | .escapeSequence | .escapeInterpolation | .stringStart | .stringEnd =>
    some .phrase
  | .formatText | .loneBackslash | .newline | .indent | .dedent | .stringContent
  | .endOfText => none
  | _ => some .mark

/-- What is left to read, and what is open. -/
structure Place where
  cursor : Cursor
  layout : Layout

/-- The number of the identifier token. -/
def identifierIndex : Nat := Token.identifier.index

/-- The number of keywords; keywords have the first numbers. -/
def keywordCount : Nat := Token.keywords.length

/-- The tokens of a Python text.  A keyword that cannot be used is read as an identifier. -/
def reader : Reader Place Kind where
  read expected p :=
    (Lexer.read p.layout (fun t => expected.contains t.index) p.cursor).map fun s =>
      (⟨s.token.index, s.first.row, Lexer.between s.first s.last, s.token.kind?⟩,
        ⟨s.last, s.layout⟩)
  offset p := p.cursor.offset
  same p q := p.cursor.offset == q.cursor.offset && p.layout == q.layout
  isExtra t := t == Token.comment.index || t == Token.lineContinuation.index
  reread l :=
    if l.token < keywordCount then
      some { l with token := identifierIndex, kind := some .identifier }
    else none

/-- A bound on the tokens of a text and on the productions completed at one token. -/
def stepLimit (length : Nat) : Nat := 64 * (length + 4)

/-- The tree of a text. -/
def parse? (source : String) : Option Node :=
  let text := source.toList
  Grammar.parse? table reader .phrase Token.endOfText.index (stepLimit text.length)
    ⟨.start text, .initial⟩

end DecisionScore.Python
