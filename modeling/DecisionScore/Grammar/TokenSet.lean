/-! # Sets of token numbers

A set of small numbers, as the bits of one natural number. -/

namespace DecisionScore.Grammar

/-- A finite set of token numbers. -/
structure TokenSet where
  bits : Nat
deriving DecidableEq, Repr, Inhabited

namespace TokenSet

/-- No token. -/
def empty : TokenSet := ⟨0⟩

/-- One token. -/
def single (i : Nat) : TokenSet := ⟨1 <<< i⟩

/-- The tokens of either set. -/
def union (s t : TokenSet) : TokenSet := ⟨s.bits ||| t.bits⟩

/-- Whether token `i` is in the set. -/
def contains (s : TokenSet) (i : Nat) : Bool := s.bits.testBit i

end TokenSet

end DecisionScore.Grammar
