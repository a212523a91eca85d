import Mathlib.Algebra.BigOperators.Group.List.Basic
import DecisionScore.Python.Condition

/-! # The work list of a condition

Weights add up: what a pending node still adds is the same whatever has been counted before it
(`own_eq_add`), so a work list ends with the sum over its nodes (`weigh_eq_add`).  That sum is
`tokens`, which reads a condition from the root down, stops at strings and skips labels. -/

namespace DecisionScore

/-! ### Weights add up -/

namespace TokenWeight

attribute [ext] TokenWeight

instance : Zero TokenWeight := ⟨⟨0, 0, 0⟩⟩

instance : Add TokenWeight :=
  ⟨fun v w => ⟨v.conds + w.conds, v.ops + w.ops, v.operands + w.operands⟩⟩

@[simp] theorem conds_zero : (0 : TokenWeight).conds = 0 := rfl

@[simp] theorem ops_zero : (0 : TokenWeight).ops = 0 := rfl

@[simp] theorem operands_zero : (0 : TokenWeight).operands = 0 := rfl

@[simp] theorem conds_add (v w : TokenWeight) : (v + w).conds = v.conds + w.conds := rfl

@[simp] theorem ops_add (v w : TokenWeight) : (v + w).ops = v.ops + w.ops := rfl

@[simp] theorem operands_add (v w : TokenWeight) : (v + w).operands = v.operands + w.operands := rfl

instance : AddCommMonoid TokenWeight where
  add_assoc u v w := by ext <;> simp [Nat.add_assoc]
  zero_add w := by ext <;> simp
  add_zero w := by ext <;> simp
  add_comm v w := by ext <;> simp [Nat.add_comm]
  nsmul := nsmulRec

end TokenWeight

namespace Python.Condition

/-- What a node adds on its own. -/
def share (isLabel : Bool) (t : Node) : TokenWeight :=
  match t.kind with
  | .booleanOperator => ⟨1, 1, 0⟩
  | .binaryOperator => ⟨0, 1, 0⟩
  | .comparisonOperator => ⟨0, namedCount t - 1, 0⟩
  | .identifier => if isLabel then 0 else ⟨0, 0, 1⟩
  | .integer | .float | .trueLiteral | .falseLiteral | .noneLiteral | .ellipsis | .string
  | .concatenatedString => ⟨0, 0, 1⟩
  | _ => 0

theorem own_eq_add (p : Pending) (w : TokenWeight) : own p w = w + share p.isLabel p.node := by
  unfold own share
  cases p.node.kind
  case identifier => cases p.isLabel <;> rfl
  all_goals rfl

mutual

/-- What a node adds with all that is counted below it. -/
def tokens (isLabel : Bool) : Node → TokenWeight
  | .node k r row text cs =>
    share isLabel (.node k r row text cs) + if isOpen k then tokensBelow (labelRole? k) cs else 0

/-- What children add of which the first one in a role is a label, if there is such a role. -/
def tokensBelow (label : Option Role) : List Node → TokenWeight
  | [] => 0
  | c :: cs =>
    if label.isSome ∧ c.role = label then tokens true c + tokensBelow none cs
    else tokens false c + tokensBelow label cs

end

theorem tokens_eq (isLabel : Bool) (t : Node) : tokens isLabel t =
    share isLabel t + if isOpen t.kind then tokensBelow (labelRole? t.kind) t.children else 0 := by
  cases t with
  | node k r row text cs => rw [tokens]; rfl

/-! ### The work list -/

/-- What the nodes of a work list add. -/
def due (ps : List Pending) : TokenWeight := (ps.map fun p => tokens p.isLabel p.node).sum

/-- The nodes to be counted once `p` has been. -/
def opened (p : Pending) : List Pending :=
  if isOpen p.node.kind then pendingChildren p.node else []

@[simp] theorem due_nil : due [] = 0 := rfl

theorem due_cons (p : Pending) (ps : List Pending) :
    due (p :: ps) = tokens p.isLabel p.node + due ps := List.sum_cons

theorem due_append (ps qs : List Pending) : due (ps ++ qs) = due ps + due qs := by
  simp [due]

theorem due_perm {ps qs : List Pending} (h : ps.Perm qs) : due ps = due qs := (h.map _).sum_eq

theorem tokensBelow_eq_due (label : Option Role) (cs : List Node) :
    tokensBelow label cs = due (labelled label cs) := by
  induction cs generalizing label with
  | nil => rw [tokensBelow, labelled, due_nil]
  | cons c cs ih =>
      rw [tokensBelow, labelled]
      split <;> rw [due_cons, ih]

theorem tokens_eq_due (p : Pending) :
    tokens p.isLabel p.node = share p.isLabel p.node + due (opened p) := by
  rw [tokens_eq, opened]
  cases isOpen p.node.kind with
  | true => rw [if_pos rfl, if_pos rfl, tokensBelow_eq_due, pendingChildren]
  | false => rfl

/-- Counting a node moves what it adds from what is due to what has been counted. -/
theorem own_add_due (p : Pending) (ps : List Pending) (w : TokenWeight) :
    own p w + due (opened p ++ ps) = w + due (p :: ps) := by
  rw [own_eq_add, due_append, due_cons, tokens_eq_due, add_assoc, add_assoc]

/-- One turn of the work list. -/
theorem weigh_cons (p : Pending) (ps : List Pending) (w : TokenWeight) :
    weigh (p :: ps) w = weigh (opened p ++ ps) (own p w) := by
  rw [weigh, opened]
  split <;> rfl

theorem pendingSize_opened (p : Pending) (ps : List Pending) :
    pendingSize (opened p ++ ps) + 1 ≤ pendingSize (p :: ps) := by
  have hcons : pendingSize (p :: ps) = p.node.size + pendingSize ps := by simp [pendingSize]
  have hsize := Tree.size_eq p.node
  unfold opened
  split
  · have := pendingSize_pendingChildren p.node ps
    omega
  · rw [List.nil_append]
    omega

/-- Induction on the turns of a work list. -/
theorem weighInduction {motive : List Pending → TokenWeight → Prop} (nil : ∀ w, motive [] w)
    (cons : ∀ p ps w, motive (opened p ++ ps) (own p w) → motive (p :: ps) w)
    (ps : List Pending) (w : TokenWeight) : motive ps w :=
  match ps with
  | [] => nil w
  | p :: ps => cons p ps w (weighInduction nil cons (opened p ++ ps) (own p w))
termination_by pendingSize ps
decreasing_by exact pendingSize_opened p ps

/-- A work list ends with the sum over its nodes. -/
theorem weigh_eq_add (ps : List Pending) (w : TokenWeight) : weigh ps w = w + due ps := by
  induction ps, w using weighInduction with
  | nil w => rw [weigh, due_nil, add_zero]
  | cons p ps w ih => rw [weigh_cons, ih, own_add_due]

theorem weight_eq_tokens (t : Node) : weight t = .bare + tokens false t := by
  rw [weight, weigh_eq_add, due_cons, due_nil, add_zero]

end Python.Condition

end DecisionScore
