import Mathlib.Data.List.TakeWhile
import DecisionScore.Proofs.Python.Site

/-! # The shape of `if` statements

The walk of a tree looks only at certain children of an `if` statement: its condition, its
consequence, and its `elif` and `else` clauses.  A tree is `Shaped` if nothing is lost in this way
and nothing comes out of order: what else an `if` statement or an `elif` clause has for children is
plain, an `elif` clause stands only in an `if` statement, and no `elif` clause follows an `else`
clause.  The trees that the parser makes are shaped. -/

namespace DecisionScore.Python

/-- Whether nodes of the kind are neither scored nor open a scope, nor are clauses of a
statement. -/
def Kind.isPlain : Kind → Bool
  | .functionDefinition | .classDefinition | .ifStatement | .elifClause | .elseClause
  | .whileStatement | .forStatement | .tryStatement | .conditionalExpression
  | .booleanOperator => false
  | _ => true

/-- Whether nodes of the kind are clauses of a statement. -/
def Kind.isClause (k : Kind) : Bool := k == .elifClause || k == .elseClause

mutual

/-- Whether a node and all that is below it are plain. -/
def isPlain : Node → Bool
  | .node k _ _ _ cs => k.isPlain && arePlain cs

/-- Whether several nodes are plain. -/
def arePlain : List Node → Bool
  | [] => true
  | c :: cs => isPlain c && arePlain cs

end

/-- Whether a node is plain and plays no role, as keywords, punctuation and comments do. -/
def isFiller (n : Node) : Bool := isPlain n && n.role.isNone

/-- The children of an `if` or `elif`: its condition, its consequence, and then such nodes as
`after` allows. -/
def isBranch (after : List Node → Bool) (cs : List Node) : Bool :=
  match cs.dropWhile isFiller with
  | [] => false
  | c :: ds => c.role == some .condition && !c.kind.isClause &&
    match ds.dropWhile isFiller with
    | [] => false
    | b :: es => b.role == some .consequence && !b.kind.isClause && after es

/-- Any number of `elif` clauses and at most one `else` clause after them, among plain nodes. -/
def areClauses : List Node → Bool
  | [] => true
  | c :: cs =>
    match c.kind with
    | .elifClause => areClauses cs
    | .elseClause => arePlain cs
    | _ => isPlain c && areClauses cs

mutual

/-- Whether the `if` statements and `elif` clauses at and below a node have the right parts. -/
def isShaped : Node → Bool
  | .node k _ _ _ cs =>
    (match k with
      | .ifStatement => isBranch areClauses cs
      | .elifClause => isBranch arePlain cs
      | _ => cs.all fun c => !isElif c) && areShaped cs

/-- Whether several nodes are shaped. -/
def areShaped : List Node → Bool
  | [] => true
  | c :: cs => isShaped c && areShaped cs

end

/-- A tree in which all `if` statements have the right parts, and that is not an `elif` clause
itself. -/
def Shaped (t : Node) : Prop := isElif t = false ∧ isShaped t = true

instance (t : Node) : Decidable (Shaped t) := inferInstanceAs (Decidable (_ ∧ _))

/-! ### A shaped tree -/

/-- A node without children and without a role. -/
def leaf (k : Kind) (row : Nat) (s : String) : Node := .node k none row s []

/-- A class with two methods of one name, the one inside the other, and in the outer one an `if`
statement with all its clauses. -/
def sample : Node :=
  .node .classDefinition none 0 "" [
    leaf .mark 0 "class", .node .identifier (some .name) 0 "C" [],
    .node .phrase (some .body) 1 "" [
      .node .functionDefinition none 1 "" [
        leaf .mark 1 "def", .node .identifier (some .name) 1 "f" [],
        .node .phrase (some .body) 2 "" [
          .node .functionDefinition none 2 "" [
            leaf .mark 2 "def", .node .identifier (some .name) 2 "f" [],
            .node .phrase (some .body) 3 "" [.node .tryStatement none 3 "" []]],
          .node .ifStatement none 4 "" [
            leaf .mark 4 "if",
            .node .booleanOperator (some .condition) 4 "" [
              leaf .identifier 4 "a", leaf .mark 4 "and", leaf .identifier 4 "b"],
            leaf .mark 4 ":",
            .node .phrase (some .consequence) 5 "" [
              .node .whileStatement none 5 "" [
                .node .identifier (some .condition) 5 "c" [],
                .node .phrase (some .body) 5 "" []]],
            .node .elifClause (some .alternative) 6 "" [
              leaf .mark 6 "elif",
              .node .conditionalExpression (some .condition) 6 "" [
                leaf .identifier 6 "x", leaf .mark 6 "if",
                .node .booleanOperator none 6 "" [
                  leaf .identifier 6 "y", leaf .mark 6 "or", leaf .identifier 6 "z"],
                leaf .mark 6 "else", leaf .identifier 6 "w"],
              leaf .comment 6 "# else",
              .node .phrase (some .consequence) 7 "" []],
            .node .elseClause (some .alternative) 8 "" [
              .node .forStatement none 9 "" [
                .node .booleanOperator (some .right) 9 "" [
                  leaf .identifier 9 "p", leaf .mark 9 "or", leaf .identifier 9 "q"],
                .node .phrase (some .body) 9 "" []]]]]]]]

/-! ### Lists of plain and shaped nodes -/

theorem isPlain_eq (n : Node) : isPlain n = (n.kind.isPlain && arePlain n.children) := by
  cases n
  rw [isPlain]
  rfl

theorem isShaped_eq (n : Node) :
    isShaped n = ((match n.kind with
      | .ifStatement => isBranch areClauses n.children
      | .elifClause => isBranch arePlain n.children
      | _ => n.children.all fun c => !isElif c) && areShaped n.children) := by
  obtain ⟨k, r, row, s, cs⟩ := n
  cases k <;> rfl

theorem arePlain_iff (cs : List Node) : arePlain cs = true ↔ ∀ c ∈ cs, isPlain c = true := by
  induction cs with
  | nil => simp [arePlain]
  | cons c cs ih => simp [arePlain, ih]

theorem areShaped_iff (cs : List Node) : areShaped cs = true ↔ ∀ c ∈ cs, isShaped c = true := by
  induction cs with
  | nil => simp [areShaped]
  | cons c cs ih => simp [areShaped, ih]

theorem isShaped_of_mem {n c : Node} (h : isShaped n = true) (hc : c ∈ n.children) :
    isShaped c = true := by
  rw [isShaped_eq, Bool.and_eq_true, areShaped_iff] at h
  exact h.2 c hc

/-- The children of a node other than an `if` statement are shaped trees of their own. -/
theorem shaped_of_mem {n c : Node} (h : isShaped n = true) (hif : n.kind ≠ .ifStatement)
    (helif : n.kind ≠ .elifClause) (hc : c ∈ n.children) : Shaped c := by
  refine ⟨?_, isShaped_of_mem h hc⟩
  rw [isShaped_eq, Bool.and_eq_true] at h
  have hall : n.children.all (fun c => !isElif c) = true := by
    have := h.1
    split at this
    · contradiction
    · contradiction
    · exact this
  simpa using List.all_eq_true.mp hall c hc

theorem shaped_of_isClause_eq_false {n c : Node} (h : isShaped n = true) (hc : c ∈ n.children)
    (hk : c.kind.isClause = false) : Shaped c := by
  refine ⟨?_, isShaped_of_mem h hc⟩
  unfold isElif
  cases hck : c.kind <;> simp_all [Kind.isClause]

theorem isPlain_of_isFiller {c : Node} (h : isFiller c = true) : isPlain c = true :=
  (Bool.and_eq_true_iff.mp h).1

theorem isElif_eq_false_of_isPlain {n : Node} (h : isPlain n = true) : isElif n = false := by
  rw [isPlain_eq, Bool.and_eq_true] at h
  unfold isElif
  cases hk : n.kind <;> simp_all [Kind.isPlain]

/-! ### The parts of an `if` or `elif` -/

/-- The children of an `if` or `elif` taken apart. -/
structure Branch where
  before : List Node
  condition : Node
  between : List Node
  consequence : Node
  after : List Node
  before_filler : ∀ c ∈ before, isFiller c = true
  between_filler : ∀ c ∈ between, isFiller c = true
  condition_role : condition.role = some .condition
  consequence_role : consequence.role = some .consequence
  condition_kind : condition.kind.isClause = false
  consequence_kind : consequence.kind.isClause = false

namespace Branch

/-- The children in order. -/
def nodes (b : Branch) : List Node :=
  b.before ++ b.condition :: (b.between ++ b.consequence :: b.after)

/-- The number of the consequence among the children. -/
def consequenceIndex (b : Branch) : Nat := b.before.length + 1 + b.between.length

end Branch

theorem exists_branch {after : List Node → Bool} {cs : List Node}
    (h : isBranch after cs = true) : ∃ b : Branch, b.nodes = cs ∧ after b.after = true := by
  unfold isBranch at h
  have hcs := List.takeWhile_append_dropWhile (p := isFiller) (l := cs)
  cases hc : cs.dropWhile isFiller with
  | nil => simp [hc] at h
  | cons c ds =>
      rw [hc] at h hcs
      have hds := List.takeWhile_append_dropWhile (p := isFiller) (l := ds)
      cases hb : ds.dropWhile isFiller with
      | nil => simp [hb] at h
      | cons b es =>
          rw [hb] at hds
          simp only [hb, Bool.and_eq_true, beq_iff_eq, Bool.not_eq_true'] at h
          obtain ⟨⟨hcr, hck⟩, ⟨hbr, hbk⟩, hes⟩ := h
          refine ⟨⟨cs.takeWhile isFiller, c, ds.takeWhile isFiller, b, es, ?_, ?_, hcr, hbr, hck,
            hbk⟩, ?_, hes⟩
          · exact fun d hd => List.mem_takeWhile_imp hd
          · exact fun d hd => List.mem_takeWhile_imp hd
          · simp only [Branch.nodes, hds, hcs]

namespace Branch

variable (b : Branch) {n : Node}

theorem role_of_filler {c : Node} (h : isFiller c = true) (r : Role) :
    (c.role == some r) = false := by
  unfold isFiller at h
  rw [Bool.and_eq_true, Option.isNone_iff_eq_none] at h
  rw [h.2]
  rfl

theorem child?_condition (hn : n.children = b.nodes) :
    n.child? .condition = some b.condition := by
  unfold Tree.child?
  rw [hn, nodes, List.find?_append, List.find?_eq_none.mpr, List.find?_cons_of_pos]
  · rfl
  · simp [b.condition_role]
  · intro c hc
    simp [role_of_filler (b.before_filler c hc)]

theorem child?_consequence (hn : n.children = b.nodes) :
    n.child? .consequence = some b.consequence := by
  unfold Tree.child?
  rw [hn, nodes, List.find?_append, List.find?_eq_none.mpr, List.find?_cons_of_neg,
    List.find?_append, List.find?_eq_none.mpr, List.find?_cons_of_pos]
  · rfl
  · simp [b.consequence_role]
  · intro c hc
    simp [role_of_filler (b.between_filler c hc)]
  · simp [b.condition_role]
  · intro c hc
    simp [role_of_filler (b.before_filler c hc)]

theorem childIndex?_condition (hn : n.children = b.nodes) :
    childIndex? n .condition = some b.before.length := by
  unfold childIndex?
  rw [hn, nodes, List.findIdx?_append, List.findIdx?_eq_none_iff.mpr, List.findIdx?_cons,
    b.condition_role]
  · simp
  · intro c hc
    exact role_of_filler (b.before_filler c hc) _

theorem mem_condition (hn : n.children = b.nodes) : b.condition ∈ n.children := by
  simp [hn, nodes]

theorem mem_consequence (hn : n.children = b.nodes) : b.consequence ∈ n.children := by
  simp [hn, nodes]

theorem branchTasks_eq (hn : n.children = b.nodes) :
    Walk.branchTasks n = [.condition b.condition, .visit b.consequence] := by
  unfold Walk.branchTasks
  rw [b.child?_condition hn, b.child?_consequence hn]
  rfl

end Branch

end DecisionScore.Python
