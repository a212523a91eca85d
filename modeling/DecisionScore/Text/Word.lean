import DecisionScore.Text.Identifier

/-! # Word characters

A word character is alphabetic, a mark, a decimal digit, a connector punctuation or a join
control.  Beyond ASCII these are the identifier characters, up to two short tables. -/

namespace DecisionScore.Text

/-- Identifier characters that are no word characters. -/
def nonWordRanges : List (Nat × Nat) :=
  [(0xb7, 0xb7), (0x387, 0x387), (0x1369, 0x1371), (0x19da, 0x19da), (0x2118, 0x2118),
   (0x212e, 0x212e)]

/-- Word characters that are no identifier characters. -/
def wordOnlyRanges : List (Nat × Nat) :=
  [(0x37a, 0x37a), (0x488, 0x489), (0x1abe, 0x1abe), (0x200c, 0x200d), (0x20dd, 0x20e0),
   (0x20e2, 0x20e4), (0x24b6, 0x24e9), (0x2e2f, 0x2e2f), (0xa670, 0xa672), (0xfc5e, 0xfc63),
   (0xfdfa, 0xfdfb), (0xfe70, 0xfe70), (0xfe72, 0xfe72), (0xfe74, 0xfe74), (0xfe76, 0xfe76),
   (0xfe78, 0xfe78), (0xfe7a, 0xfe7a), (0xfe7c, 0xfe7c), (0xfe7e, 0xfe7e), (0x1f130, 0x1f149),
   (0x1f150, 0x1f169), (0x1f170, 0x1f189)]

/-- Identifier characters that are no word characters. -/
def nonWord : CharClass := ⟨nonWordRanges.toArray⟩

/-- Word characters that are no identifier characters. -/
def wordOnly : CharClass := ⟨wordOnlyRanges.toArray⟩

/-- Whether a character is a word character. -/
def isWord (c : Char) : Bool :=
  if c.toNat < 128 then c.isAlphanum || c == '_'
  else (isIdentifierContinue c && !nonWord.contains c) || wordOnly.contains c

end DecisionScore.Text
