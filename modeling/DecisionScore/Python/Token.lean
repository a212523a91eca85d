/-! # Tokens of Python

The vocabulary of the grammar.  A keyword is told from an identifier only where the grammar can
use it (`Token.keyword?` gives the keyword a word spells).  Line breaks, indentation and the
parts of strings are tokens too; they are found by the layout scanner. -/

namespace DecisionScore.Python

/-- The tokens. -/
inductive Token where
  | kwImport | kwFrom | kwFuture | kwAs | kwPrint | kwAssert | kwReturn | kwDel | kwRaise
  | kwPass | kwBreak | kwContinue | kwIf | kwElif | kwElse | kwMatch | kwCase | kwAsync | kwFor
  | kwIn | kwWhile | kwTry | kwExcept | kwFinally | kwWith | kwDef | kwGlobal | kwNonlocal
  | kwExec | kwType | kwClass | kwNot | kwAnd | kwOr | kwIs | kwLambda | kwYield | kwAwait
  | kwTrue | kwFalse | kwNone | kwUnderscore
  | dot | lparen | rparen | comma | star | shiftRight | walrus | semicolon | colon | arrow
  | doubleStar | lbracket | rbracket | equals | bar | lbrace | rbrace | plus | minus | atSign
  | slash | percent | doubleSlash | ampersand | caret | shiftLeft | tilde | less | lessEqual
  | equalEqual | notEqual | greaterEqual | greater | lessGreater | plusEqual | minusEqual
  | starEqual | slashEqual | atEqual | doubleSlashEqual | percentEqual | doubleStarEqual
  | shiftRightEqual | shiftLeftEqual | ampersandEqual | caretEqual | barEqual | dots
  | exceptStar
  | identifier | integer | float
  /-- The `!r` of an interpolation. -/
  | typeConversion
  /-- The text between the interpolations of a format specifier. -/
  | formatText
  | escapeSequence
  /-- A backslash that begins no escape sequence. -/
  | loneBackslash
  | comment | lineContinuation
  | newline | indent | dedent
  | stringStart | stringContent | escapeInterpolation | stringEnd
  | endOfText
deriving DecidableEq, Repr, Inhabited

namespace Token

/-- The number of a token. -/
def index (t : Token) : Nat := t.ctorIdx

/-- The keywords with their spelling. -/
def keywords : List (String × Token) :=
  [("import", kwImport), ("from", kwFrom), ("__future__", kwFuture), ("as", kwAs),
   ("print", kwPrint), ("assert", kwAssert), ("return", kwReturn), ("del", kwDel),
   ("raise", kwRaise), ("pass", kwPass), ("break", kwBreak), ("continue", kwContinue),
   ("if", kwIf), ("elif", kwElif), ("else", kwElse), ("match", kwMatch), ("case", kwCase),
   ("async", kwAsync), ("for", kwFor), ("in", kwIn), ("while", kwWhile), ("try", kwTry),
   ("except", kwExcept), ("finally", kwFinally), ("with", kwWith), ("def", kwDef),
   ("global", kwGlobal), ("nonlocal", kwNonlocal), ("exec", kwExec), ("type", kwType),
   ("class", kwClass), ("not", kwNot), ("and", kwAnd), ("or", kwOr), ("is", kwIs),
   ("lambda", kwLambda), ("yield", kwYield), ("await", kwAwait), ("True", kwTrue),
   ("False", kwFalse), ("None", kwNone), ("_", kwUnderscore)]

/-- The operators and punctuation marks with their spelling, longer ones first. -/
def marks : List (List Char × Token) :=
  [(['e', 'x', 'c', 'e', 'p', 't', '*'], exceptStar), (['/', '/', '='], doubleSlashEqual),
   (['*', '*', '='], doubleStarEqual), (['>', '>', '='], shiftRightEqual),
   (['<', '<', '='], shiftLeftEqual), (['.', '.', '.'], dots), (['>', '>'], shiftRight),
   ([':', '='], walrus), (['-', '>'], arrow), (['*', '*'], doubleStar),
   (['/', '/'], doubleSlash), (['<', '<'], shiftLeft), (['<', '='], lessEqual),
   (['=', '='], equalEqual), (['!', '='], notEqual), (['>', '='], greaterEqual),
   (['<', '>'], lessGreater), (['+', '='], plusEqual), (['-', '='], minusEqual),
   (['*', '='], starEqual), (['/', '='], slashEqual), (['@', '='], atEqual),
   (['%', '='], percentEqual), (['&', '='], ampersandEqual), (['^', '='], caretEqual),
   (['|', '='], barEqual), (['.'], dot), (['('], lparen), ([')'], rparen), ([','], comma),
   (['*'], star), ([';'], semicolon), ([':'], colon), (['['], lbracket), ([']'], rbracket),
   (['='], equals), (['|'], bar), (['{'], lbrace), (['}'], rbrace), (['+'], plus),
   (['-'], minus), (['@'], atSign), (['/'], slash), (['%'], percent), (['&'], ampersand),
   (['^'], caret), (['~'], tilde), (['<'], less), (['>'], greater)]

/-- The keyword a word spells. -/
def keyword? (word : String) : Option Token := (keywords.find? fun k => k.1 == word).map (·.2)

end Token

end DecisionScore.Python
