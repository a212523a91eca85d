import DecisionScore.Breakdown
import DecisionScore.Python.Condition
import DecisionScore.Python.Nesting

/-! # Scoring a Python tree

The walk visits a tree in document order and scores its constructs.

* `if`, `while` and `for` statements open a level before they are scored, so an outermost one
  stands at depth one; every `elif` clause opens one more level, and the `else` clause keeps the
  level of the last one.
* `try` statements and conditional expressions are scored at the current level and open none.
* A boolean operator outside every scored condition adds one path.

Trees nest as deep as the expressions of the text, so the walk runs off a list of tasks: `step`
does one task and schedules those that follow from it, and `run` goes on until none is left. -/

namespace DecisionScore.Python.Walk

/-- What is still to be done. -/
inductive Task where
  | visit (n : Node)
  /-- Visits the condition of a scored construct. -/
  | condition (n : Node)
  | endCondition
  /-- Scores an `elif` clause, one level deeper. -/
  | elif (n : Node)
  /-- Leaves a level. -/
  | ascend
  | closeMethod
  | closeClass

/-- The state of a walk. -/
structure Walker where
  depth : Nat
  /-- How many scored conditions enclose the place of the walk. -/
  inCondition : Nat
  /-- The open methods, innermost first. -/
  methods : List Scope
  /-- The open classes, innermost first. -/
  classes : List Scope
  result : Breakdown

namespace Walker

/-- Before the first task. -/
def initial : Walker := ⟨0, 0, [], [], .baseline⟩

/-- Applies a change to the innermost scope. -/
def onInnermost (f : Scope → Scope) : List Scope → List Scope
  | [] => []
  | s :: ss => f s :: ss

/-- Notes the constructs found in the body of a construct. -/
def noteAll (b : Breakdown) (kind : Construct) (depth : Nat) (found : List Construct) :
    Breakdown :=
  found.foldl (fun b child => b.noteNested kind depth child) b

/-- Scores a construct at the current depth. -/
def register (w : Walker) (kind : Construct) (n : Node) (condition body : Option Node) :
    Walker :=
  let tokens := match condition with
    | none => .bare
    | some c => Condition.weight c
  let dc := contribution kind w.depth tokens
  let found := match body with
    | none => []
    | some b => constructs b
  { w with
    methods := onInnermost (·.charge dc) w.methods
    classes := onInnermost (·.charge dc) w.classes
    result := noteAll ((w.result.score (n.row + 1) dc).record kind w.depth) kind w.depth found }

/-- Adds the path of a boolean operator, to the innermost method or, outside all methods, to the
innermost class. -/
def addOperatorPath (w : Walker) : Walker :=
  let w := { w with result := w.result.addPaths 1 }
  match w.methods with
  | _ :: _ => { w with methods := onInnermost (·.addPaths 1) w.methods }
  | [] => { w with classes := onInnermost (·.addPaths 1) w.classes }

/-- One level deeper. -/
def descend (w : Walker) : Walker := { w with depth := w.depth + 1 }

/-- Closes the innermost method. -/
def closeMethod (w : Walker) : Walker :=
  match w.methods with
  | [] => w
  | s :: ss => { w with methods := ss, result := w.result.closeMethod s }

/-- Closes the innermost class. -/
def closeClass (w : Walker) : Walker :=
  match w.classes with
  | [] => w
  | s :: ss => { w with classes := ss, result := w.result.closeClass s }

end Walker

/-- The name of a definition. -/
def nameOf (n : Node) : String :=
  match n.child? .name with
  | none => "<anonymous>"
  | some c => c.text

/-- The second named child of a node. -/
def secondNamed? (n : Node) : Option Node := (n.children.filter (·.kind.isNamed))[1]?

/-- Visits to the children of a node. -/
def visits (ns : List Node) : List Task := ns.map .visit

/-- Visits to the children of a node, the first one in the given role as a scored condition. -/
def visitsIn (r : Role) : List Node → List Task
  | [] => []
  | n :: ns => if n.role = some r then .condition n :: visits ns else .visit n :: visitsIn r ns

/-- Visits to the children of a node, the named child of the given number as a scored condition;
`none` where it has been passed. -/
def visitsNamed : Option Nat → List Node → List Task
  | _, [] => []
  | none, n :: ns => .visit n :: visitsNamed none ns
  | some i, n :: ns =>
    if n.kind.isNamed then
      match i with
      | 0 => .condition n :: visitsNamed none ns
      | j + 1 => .visit n :: visitsNamed (some j) ns
    else .visit n :: visitsNamed (some i) ns

/-- The tasks of one alternative of an `if` statement. -/
def alternativeTasks (n : Node) : List Task :=
  match n.kind with
  | .elifClause => [.elif n]
  | .elseClause => visits n.children
  | _ => []

/-- The levels an `if` statement opens: one, and one for every `elif` clause. -/
def levelsOf (n : Node) : Nat := 1 + n.children.countP fun c => c.kind == .elifClause

/-- The tasks of the condition and the consequence of an `if` or `elif`. -/
def branchTasks (n : Node) : List Task :=
  (match n.child? .condition with
    | none => []
    | some c => [.condition c]) ++
  match n.child? .consequence with
    | none => []
    | some b => [.visit b]

/-- Scores an `if` or `elif`. -/
def scoreBranch (w : Walker) (n : Node) : Walker :=
  w.register .ifBranch n (n.child? .condition) (n.child? .consequence)

/-- Visits a node: what it does at once, and the tasks that follow from it. -/
def visit (w : Walker) (n : Node) : Walker × List Task :=
  match n.kind with
  | .functionDefinition =>
    ({ w with methods := .start (nameOf n) :: w.methods }, visits n.children ++ [.closeMethod])
  | .classDefinition =>
    ({ w with classes := .start (nameOf n) :: w.classes }, visits n.children ++ [.closeClass])
  | .ifStatement =>
    (scoreBranch w.descend n,
      branchTasks n ++ n.children.flatMap alternativeTasks
        ++ List.replicate (levelsOf n) .ascend)
  | .whileStatement =>
    (w.descend.register .whileLoop n (n.child? .condition) (n.child? .body),
      visitsIn .condition n.children ++ [.ascend])
  | .forStatement =>
    (w.descend.register .forLoop n none (n.child? .body), visits n.children ++ [.ascend])
  | .tryStatement => (w.register .tryBlock n none (n.child? .body), visits n.children)
  | .conditionalExpression =>
    (w.register .ternary n (secondNamed? n) none, visitsNamed (some 1) n.children)
  | .booleanOperator =>
    (if w.inCondition = 0 then w.addOperatorPath else w, visits n.children)
  | _ => (w, visits n.children)

/-- Does one task; gives the tasks to be done before the rest. -/
def step (w : Walker) : Task → Walker × List Task
  | .visit n => visit w n
  | .condition n => ({ w with inCondition := w.inCondition + 1 }, [.visit n, .endCondition])
  | .endCondition => ({ w with inCondition := w.inCondition - 1 }, [])
  | .elif n => (scoreBranch w.descend n, branchTasks n)
  | .ascend => ({ w with depth := w.depth - 1 }, [])
  | .closeMethod => (w.closeMethod, [])
  | .closeClass => (w.closeClass, [])

/-! ### The walk ends

The work of a node outweighs everything its visit schedules, since every child is scheduled a
bounded number of times. -/

mutual

/-- The work a visit to a node can come to. -/
def work : Node → Nat
  | .node _ _ _ _ cs => 8 * works cs + 8

/-- The work that visits to several nodes can come to. -/
def works : List Node → Nat
  | [] => 0
  | n :: ns => work n + works ns

end

/-- The work a task can come to. -/
def cost : Task → Nat
  | .visit n | .elif n => work n
  | .condition n => work n + 2
  | _ => 1

/-- The work several tasks can come to. -/
def costs : List Task → Nat
  | [] => 0
  | t :: ts => cost t + costs ts

theorem work_eq (n : Node) : work n = 8 * works n.children + 8 := by
  cases n; simp [work, Tree.children]

theorem works_cons (n : Node) (ns : List Node) : works (n :: ns) = work n + works ns := by
  simp [works]

theorem work_le_works {n : Node} {ns : List Node} (h : n ∈ ns) : work n ≤ works ns := by
  induction ns with
  | nil => cases h
  | cons m ns ih =>
    rw [works_cons]
    rcases List.mem_cons.mp h with rfl | h
    · omega
    · have := ih h; omega

theorem costs_cons (t : Task) (ts : List Task) : costs (t :: ts) = cost t + costs ts := by
  simp [costs]

theorem costs_append (ts us : List Task) : costs (ts ++ us) = costs ts + costs us := by
  induction ts with
  | nil => simp [costs]
  | cons t ts ih => rw [List.cons_append, costs_cons, costs_cons, ih]; omega

theorem costs_visits (ns : List Node) : costs (visits ns) = works ns := by
  induction ns with
  | nil => simp [costs, visits, works]
  | cons n ns ih =>
    have : visits (n :: ns) = .visit n :: visits ns := rfl
    rw [this, costs_cons, works_cons, ih]; rfl

theorem costs_visitsIn_le (r : Role) (ns : List Node) :
    costs (visitsIn r ns) ≤ works ns + 2 := by
  induction ns with
  | nil => simp [costs, visitsIn]
  | cons n ns ih =>
    rw [visitsIn, works_cons]
    split
    · rw [costs_cons, costs_visits]; simp only [cost]; omega
    · rw [costs_cons]; simp only [cost]; omega

theorem costs_visitsNamed_none (ns : List Node) : costs (visitsNamed none ns) = works ns := by
  induction ns with
  | nil => simp [costs, visitsNamed, works]
  | cons n ns ih => rw [visitsNamed, costs_cons, works_cons, ih]; rfl

theorem costs_visitsNamed_le (i : Nat) (ns : List Node) :
    costs (visitsNamed (some i) ns) ≤ works ns + 2 := by
  induction ns generalizing i with
  | nil => simp [costs, visitsNamed]
  | cons n ns ih =>
    rw [works_cons]
    by_cases hn : n.kind.isNamed = true
    · cases i with
      | zero =>
        simp only [visitsNamed, hn, if_true, costs_cons, costs_visitsNamed_none, cost]; omega
      | succ j =>
        have := ih j
        simp only [visitsNamed, hn, if_true, costs_cons, cost]; omega
    · have := ih i
      have hstep : visitsNamed (some i) (n :: ns) = .visit n :: visitsNamed (some i) ns := by
        cases i <;> simp [visitsNamed, hn]
      rw [hstep, costs_cons]; simp only [cost]; omega

theorem costs_branchTasks_le (n : Node) : costs (branchTasks n) ≤ 2 * works n.children + 2 := by
  rw [branchTasks, costs_append]
  have hc : costs (match n.child? .condition with
      | none => []
      | some c => [.condition c]) ≤ works n.children + 2 := by
    split
    · simp [costs]
    · rename_i c h
      have := work_le_works (Tree.mem_of_child? h)
      simp only [costs, cost]; omega
  have hb : costs (match n.child? .consequence with
      | none => []
      | some b => [.visit b]) ≤ works n.children := by
    split
    · simp [costs]
    · rename_i b h
      have := work_le_works (Tree.mem_of_child? h)
      simp only [costs, cost]; omega
  omega

theorem costs_alternativeTasks_le (n : Node) : costs (alternativeTasks n) ≤ work n := by
  rw [alternativeTasks]
  split
  · simp [costs, cost]
  · rw [costs_visits, work_eq]; omega
  · simp [costs]

theorem costs_alternatives_le (ns : List Node) :
    costs (ns.flatMap alternativeTasks) ≤ works ns := by
  induction ns with
  | nil => simp [costs]
  | cons n ns ih =>
    rw [List.flatMap_cons, costs_append, works_cons]
    have := costs_alternativeTasks_le n
    omega

theorem length_le_works (ns : List Node) : ns.length ≤ works ns := by
  induction ns with
  | nil => simp
  | cons n ns ih => rw [List.length_cons, works_cons, work_eq]; omega

theorem costs_replicate_ascend (k : Nat) : costs (List.replicate k .ascend) = k := by
  induction k with
  | zero => rfl
  | succ k ih => rw [List.replicate_succ, costs_cons, ih]; simp only [cost]; omega

/-- The tasks that follow from a visit are less work than the visit. -/
theorem costs_visit_lt (w : Walker) (n : Node) : costs (visit w n).2 < work n := by
  have hw := work_eq n
  rw [visit]
  split <;> simp only [costs_append, costs_visits]
  · simp only [costs, cost]; omega
  · simp only [costs, cost]; omega
  · have h1 := costs_branchTasks_le n
    have h2 := costs_alternatives_le n.children
    have h3 : levelsOf n ≤ 1 + works n.children :=
      Nat.add_le_add_left (Nat.le_trans List.countP_le_length (length_le_works _)) 1
    rw [costs_replicate_ascend]; omega
  · have := costs_visitsIn_le .condition n.children
    simp only [costs, cost] at this ⊢
    omega
  · simp only [costs, cost]; omega
  · omega
  · have := costs_visitsNamed_le 1 n.children; omega
  · omega
  · omega

/-- The tasks that follow from a task are less work than the task. -/
theorem costs_step_lt (w : Walker) (t : Task) : costs (step w t).2 < cost t := by
  cases t with
  | visit n => exact costs_visit_lt w n
  | elif n =>
    have := costs_branchTasks_le n
    have := work_eq n
    simp only [step, cost]; omega
  | condition n => simp [step, costs, cost]
  | endCondition => simp [step, costs, cost]
  | ascend => simp [step, costs, cost]
  | closeMethod => simp [step, costs, cost]
  | closeClass => simp [step, costs, cost]

/-- Does tasks until none is left. -/
def run : List Task → Walker → Walker
  | [], w => w
  | t :: ts, w => run ((step w t).2 ++ ts) (step w t).1
termination_by ts => costs ts
decreasing_by
  rw [costs_append, costs_cons]
  have := costs_step_lt w t
  omega

/-- Closes what is still open. -/
def finish (w : Walker) : Breakdown :=
  let b := w.methods.foldl Breakdown.closeMethod w.result
  w.classes.foldl Breakdown.closeClass b

/-- The breakdown of a tree. -/
def breakdown (root : Node) : Breakdown := finish (run [.visit root] .initial)

end DecisionScore.Python.Walk
