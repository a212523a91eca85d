import DecisionScore.Construct
import DecisionScore.Python.Node

/-! # The weight of a condition

`Condition.weight` counts the clauses, operators and operands of a condition by working off a list
of pending nodes.  A string is one operand whatever is in it.  The name after a dot and the name of
a keyword argument are labels, not operands. -/

namespace DecisionScore.Python.Condition

/-- The role of the child that is a label in a node of the given kind. -/
def labelRole? : Kind → Option Role
  | .attribute => some .attribute
  | .keywordArgument => some .name
  | _ => none

/-- A node still to be counted, and whether it is a label in its parent. -/
structure Pending where
  isLabel : Bool
  node : Node

/-- Nodes still to be counted; the first one in the given role, if a role is given, is a label. -/
def labelled (label : Option Role) : List Node → List Pending
  | [] => []
  | c :: cs =>
    if label.isSome ∧ c.role = label then ⟨true, c⟩ :: labelled none cs
    else ⟨false, c⟩ :: labelled label cs

/-- The children of a node, as nodes still to be counted. -/
def pendingChildren (t : Node) : List Pending := labelled (labelRole? t.kind) t.children

/-- The number of named children. -/
def namedCount (t : Node) : Nat := t.children.countP (·.kind.isNamed)

/-- What a node adds on its own. -/
def own (p : Pending) (w : TokenWeight) : TokenWeight :=
  match p.node.kind with
  | .booleanOperator => { w with conds := w.conds + 1, ops := w.ops + 1 }
  | .binaryOperator => { w with ops := w.ops + 1 }
  | .comparisonOperator => { w with ops := w.ops + (namedCount p.node - 1) }
  | .identifier => if p.isLabel then w else { w with operands := w.operands + 1 }
  | .integer | .float | .trueLiteral | .falseLiteral | .noneLiteral | .ellipsis | .string
  | .concatenatedString => { w with operands := w.operands + 1 }
  | _ => w

/-- Whether the parts of a node are counted too. -/
def isOpen (k : Kind) : Bool := k != .string && k != .concatenatedString

/-- The number of nodes in a list of pending ones. -/
def pendingSize (ps : List Pending) : Nat := Tree.sizes (ps.map (·.node))

@[simp] theorem map_node_labelled (label : Option Role) (cs : List Node) :
    (labelled label cs).map (·.node) = cs := by
  induction cs generalizing label with
  | nil => rfl
  | cons c cs ih =>
    rw [labelled]
    split <;> simp [ih]

theorem pendingSize_pendingChildren (t : Node) (ps : List Pending) :
    pendingSize (pendingChildren t ++ ps) + 1 = t.size + pendingSize ps := by
  have h : (pendingChildren t).map (·.node) = t.children := map_node_labelled _ _
  simp only [pendingSize, List.map_append, h, Tree.sizes_append, Tree.size_eq t]
  omega

/-- Counts all pending nodes. -/
def weigh : List Pending → TokenWeight → TokenWeight
  | [], w => w
  | p :: ps, w =>
    if isOpen p.node.kind then weigh (pendingChildren p.node ++ ps) (own p w)
    else weigh ps (own p w)
termination_by ps => pendingSize ps
decreasing_by
  · have := pendingSize_pendingChildren p.node ps
    simp only [pendingSize, List.map_cons, Tree.sizes_cons] at this ⊢
    omega
  · have := Tree.size_eq p.node
    simp only [pendingSize, List.map_cons, Tree.sizes_cons]
    omega

/-- The weight of a condition. -/
def weight (condition : Node) : TokenWeight := weigh [⟨false, condition⟩] .bare

end DecisionScore.Python.Condition
