/-! # Control-flow constructs and their weights

The nine kinds of construct, the name each is reported under, and the weight model: an
occurrence contributes `max depth 1 * baseWeight * tokens`, where the token weight measures how
rich the governing condition is. -/

namespace DecisionScore

/-- The kinds of control-flow construct, in the order of every listing. -/
inductive Construct where
  | ifBranch
  | elseIf
  | forLoop
  | whileLoop
  | switchHead
  | caseLabel
  | catchClause
  | ternary
  | tryBlock
deriving DecidableEq, Repr, Inhabited

namespace Construct

/-- All kinds, in order. -/
def all : List Construct :=
  [ifBranch, elseIf, forLoop, whileLoop, switchHead, caseLabel, catchClause, ternary, tryBlock]

/-- The name a kind is reported under. -/
def name : Construct → String
  | ifBranch => "if"
  | elseIf => "else-if"
  | forLoop => "for"
  | whileLoop => "while"
  | switchHead => "switch"
  | caseLabel => "case"
  | catchClause => "catch"
  | ternary => "ternary"
  | tryBlock => "try"

/-- The kind of a given name. -/
def ofName? (s : String) : Option Construct := all.find? fun k => k.name == s

/-- The place of a kind in the order. -/
def rank : Construct → Nat
  | ifBranch => 0
  | elseIf => 1
  | forLoop => 2
  | whileLoop => 3
  | switchHead => 4
  | caseLabel => 5
  | catchClause => 6
  | ternary => 7
  | tryBlock => 8

theorem rank_injective {a b : Construct} (h : a.rank = b.rank) : a = b := by
  cases a <;> cases b <;> first | rfl | cases h

instance : Ord Construct := ⟨fun a b => compare a.rank b.rank⟩

instance : Std.TransOrd Construct where
  eq_swap {a b} := @Std.OrientedCmp.eq_swap Nat compare _ a.rank b.rank
  isLE_trans {a b c} := @Std.TransCmp.isLE_trans Nat compare _ a.rank b.rank c.rank

instance : Std.LawfulEqOrd Construct where
  compare_self {a} := @Std.ReflCmp.compare_self Nat compare _ a.rank
  eq_of_compare h := rank_injective (Std.LawfulEqOrd.eq_of_compare (α := Nat) h)

/-- The weight of a kind before depth and condition are taken into account. -/
def baseWeight : Construct → Nat
  | ifBranch | elseIf | forLoop | switchHead | ternary => 2
  | whileLoop => 3
  | caseLabel | catchClause | tryBlock => 1

end Construct

/-- Token richness of a governing condition. -/
structure TokenWeight where
  /-- Independent boolean clauses: one, and one more per combinator. -/
  conds : Nat
  /-- Binary, comparison and boolean operators. -/
  ops : Nat
  /-- Identifier and literal leaves. -/
  operands : Nat
deriving DecidableEq, Repr, Inhabited

namespace TokenWeight

/-- The weight of a construct without a condition. -/
def bare : TokenWeight := ⟨1, 0, 0⟩

/-- All that is counted, together. -/
def total (w : TokenWeight) : Nat := w.conds + w.ops + w.operands

end TokenWeight

/-- The depth as a factor: the outermost level counts once. -/
def effectiveDepth (depth : Nat) : Nat := max depth 1

/-- What one occurrence of `kind` at `depth` adds to the decisional complexity. -/
def contribution (kind : Construct) (depth : Nat) (tokens : TokenWeight) : Nat :=
  effectiveDepth depth * kind.baseWeight * tokens.total

end DecisionScore
