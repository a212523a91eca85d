import DecisionScore.Construct
import DecisionScore.Python.Node

/-! # Constructs beneath a node

`constructs` lists the constructs beneath a node in document order.  It moves a cursor down to the
first child, right to the next sibling, and up where there is none. -/

namespace DecisionScore.Python

/-- The construct a node of the given kind is, if any. -/
def Kind.construct? : Kind → Option Construct
  | .ifStatement | .elifClause => some .ifBranch
  | .forStatement => some .forLoop
  | .whileStatement => some .whileLoop
  | .tryStatement => some .tryBlock
  | .conditionalExpression => some .ternary
  | _ => none

namespace Nesting

/-- The place of a cursor: on each level, innermost first, the siblings still ahead. -/
abbrev Levels := List (List Node)

/-- How much a cursor still has to do. -/
def work : Levels → Nat
  | [] => 0
  | l :: ls => 2 * Tree.sizes l + 1 + work ls

/-- The constructs ahead of a cursor. -/
def ahead : Levels → List Construct
  | [] => []
  | [] :: up => ahead up
  | (n :: siblings) :: up => n.kind.construct?.toList ++ ahead (n.children :: siblings :: up)
termination_by ls => work ls
decreasing_by
  · simp [work]
  · simp only [work, Tree.sizes_cons, Tree.size_eq n]; omega

end Nesting

/-- The constructs beneath a node, in document order. -/
def constructs (n : Node) : List Construct := Nesting.ahead [n.children]

end DecisionScore.Python
