import DecisionScore.Proofs.Python.Traversal

/-! # What a walk does to the score

Most tasks of a walk only schedule others.  `act?` says what a task does to the scores: it scores a
construct, adds the path of a boolean operator, or opens or closes a scope.  `acts` lists what a
whole run does, in order, and `run_ledger` shows that the open scopes and the breakdown at its end
are those of its acts done one after the other: nothing else touches them. -/

namespace DecisionScore.Python.Walk

/-! ### Acts -/

/-- A construct as it is scored. -/
structure Registration where
  kind : Construct
  node : Node
  depth : Nat
  condition : Option Node
  body : Option Node

namespace Registration

/-- The token weight of the condition, bare where there is none. -/
def tokens (r : Registration) : TokenWeight :=
  match r.condition with
  | none => .bare
  | some c => Condition.weight c

/-- What the construct contributes to the decisional complexity. -/
def dc (r : Registration) : Nat := contribution r.kind r.depth r.tokens

/-- The line of the construct, counted from one. -/
def line (r : Registration) : Nat := r.node.row + 1

/-- The constructs found in the body. -/
def found (r : Registration) : List Construct :=
  match r.body with
  | none => []
  | some b => constructs b

/-- Enters the construct into a breakdown. -/
def addTo (r : Registration) (b : Breakdown) : Breakdown :=
  Walker.noteAll ((b.score r.line r.dc).record r.kind r.depth) r.kind r.depth r.found

end Registration

/-- What a task can do to the scores. -/
inductive Act where
  | score (r : Registration)
  /-- Adds a path, to the innermost method or else to the innermost class. -/
  | path (inMethod : Bool)
  | openMethod (name : String)
  | closeMethod
  | openClass (name : String)
  | closeClass

/-- What a visit does to the scores. -/
def visitAct? (w : Walker) (n : Node) : Option Act :=
  match n.kind with
  | .functionDefinition => some (.openMethod (nameOf n))
  | .classDefinition => some (.openClass (nameOf n))
  | .ifStatement => some (.score
      ⟨.ifBranch, n, w.depth + 1, n.child? .condition, n.child? .consequence⟩)
  | .whileStatement => some (.score
      ⟨.whileLoop, n, w.depth + 1, n.child? .condition, n.child? .body⟩)
  | .forStatement => some (.score ⟨.forLoop, n, w.depth + 1, none, n.child? .body⟩)
  | .tryStatement => some (.score ⟨.tryBlock, n, w.depth, none, n.child? .body⟩)
  | .conditionalExpression => some (.score ⟨.ternary, n, w.depth, secondNamed? n, none⟩)
  | .booleanOperator => if w.inCondition = 0 then some (.path !w.methods.isEmpty) else none
  | _ => none

/-- What a task does to the scores. -/
def act? (w : Walker) : Task → Option Act
  | .visit n => visitAct? w n
  | .elif n => some (.score
      ⟨.ifBranch, n, w.depth + 1, n.child? .condition, n.child? .consequence⟩)
  | .closeMethod => some .closeMethod
  | .closeClass => some .closeClass
  | .condition _ | .endCondition | .ascend => none

/-! ### Ledgers -/

/-- The open scopes and the breakdown of a walk. -/
structure Ledger where
  methods : List Scope
  classes : List Scope
  result : Breakdown

/-- The ledger of a walker. -/
def Walker.ledger (w : Walker) : Ledger := ⟨w.methods, w.classes, w.result⟩

namespace Ledger

/-- Does an act. -/
def perform (l : Ledger) : Act → Ledger
  | .score r =>
    ⟨Walker.onInnermost (·.charge r.dc) l.methods, Walker.onInnermost (·.charge r.dc) l.classes,
      r.addTo l.result⟩
  | .path true =>
    ⟨Walker.onInnermost (·.addPaths 1) l.methods, l.classes, l.result.addPaths 1⟩
  | .path false =>
    ⟨l.methods, Walker.onInnermost (·.addPaths 1) l.classes, l.result.addPaths 1⟩
  | .openMethod name => { l with methods := .start name :: l.methods }
  | .openClass name => { l with classes := .start name :: l.classes }
  | .closeMethod =>
    match l.methods with
    | [] => l
    | s :: ss => { l with methods := ss, result := l.result.closeMethod s }
  | .closeClass =>
    match l.classes with
    | [] => l
    | s :: ss => { l with classes := ss, result := l.result.closeClass s }

end Ledger

theorem ledger_addOperatorPath (w : Walker) :
    w.addOperatorPath.ledger = w.ledger.perform (.path !w.methods.isEmpty) := by
  unfold Walker.addOperatorPath
  cases h : w.methods with
  | nil => simp [Walker.ledger, Ledger.perform, h]
  | cons s ss => simp [Walker.ledger, Ledger.perform, h]

theorem ledger_visit (w : Walker) (n : Node) :
    (visit w n).1.ledger = (visitAct? w n).elim w.ledger w.ledger.perform := by
  unfold visit visitAct?
  cases n.kind
  case booleanOperator =>
    by_cases h : w.inCondition = 0
    · simp only [h, if_true, Option.elim_some]
      exact ledger_addOperatorPath w
    · simp only [h, if_false, Option.elim_none]
  all_goals rfl

/-- **One task**: what it does to the ledger is its act. -/
theorem ledger_step (w : Walker) (t : Task) :
    (step w t).1.ledger = (act? w t).elim w.ledger w.ledger.perform := by
  cases t with
  | visit n => exact ledger_visit w n
  | closeMethod =>
      simp only [step, act?, Option.elim_some, Ledger.perform, Walker.closeMethod]
      cases h : w.methods <;> simp [Walker.ledger, h]
  | closeClass =>
      simp only [step, act?, Option.elim_some, Ledger.perform, Walker.closeClass]
      cases h : w.classes <;> simp [Walker.ledger, h]
  | _ => rfl

/-! ### The history of a run -/

/-- The tasks of a run in the order in which they are done, each with the state it is done in. -/
def history : List Task → Walker → List (Walker × Task)
  | [], _ => []
  | t :: ts, w => (w, t) :: history ((step w t).2 ++ ts) (step w t).1
termination_by ts => costs ts
decreasing_by
  rw [costs_append, costs_cons]
  have := costs_step_lt w t
  omega

/-- What a run does to the scores, in order. -/
def acts (ts : List Task) (w : Walker) : List Act :=
  (history ts w).filterMap fun (w, t) => act? w t

theorem run_cons (t : Task) (ts : List Task) (w : Walker) :
    run (t :: ts) w = run ((step w t).2 ++ ts) (step w t).1 := by rw [run]

@[simp] theorem run_nil (w : Walker) : run [] w = w := by rw [run]

/-- Where the tasks lead when nothing is pending behind them. -/
theorem Does.run {ts : List Task} {w w' : Walker} (h : Does ts w w') : Walk.run ts w = w' := by
  have hrun : Walk.run (ts ++ []) w = Walk.run [] w' := h.run_eq
  rw [List.append_nil, run_nil] at hrun
  exact hrun

theorem history_append (ts us : List Task) (w : Walker) :
    history (ts ++ us) w = history ts w ++ history us (run ts w) := by
  induction ts, w using run.induct with
  | case1 w => rw [history, run_nil]; rfl
  | case2 t ts w ih =>
      rw [List.cons_append, history, history, run_cons, ← List.append_assoc, ih, List.cons_append]

theorem acts_append (ts us : List Task) (w : Walker) :
    acts (ts ++ us) w = acts ts w ++ acts us (run ts w) := by
  unfold acts
  rw [history_append, List.filterMap_append]

@[simp] theorem acts_nil (w : Walker) : acts [] w = [] := by
  unfold acts
  rw [history]
  rfl

theorem acts_cons (t : Task) (ts : List Task) (w : Walker) :
    acts (t :: ts) w = (act? w t).toList ++ acts ((step w t).2 ++ ts) (step w t).1 := by
  unfold acts
  rw [history, List.filterMap_cons]
  cases h : act? w t <;> simp [h]

/-- A task alone: its act, and then those of the tasks that follow from it. -/
theorem acts_singleton (t : Task) (w : Walker) :
    acts [t] w = (act? w t).toList ++ acts (step w t).2 (step w t).1 := by
  rw [acts_cons, List.append_nil]

/-- **A whole run**: the ledger at its end is that of its acts. -/
theorem run_ledger (ts : List Task) (w : Walker) :
    (run ts w).ledger = (acts ts w).foldl Ledger.perform w.ledger := by
  induction ts, w using run.induct with
  | case1 w => rw [run_nil, acts_nil]; rfl
  | case2 t ts w ih =>
      rw [run_cons, ih, acts_cons, List.foldl_append, ledger_step]
      cases act? w t <;> rfl

/-- The breakdown of a tree is made by the acts of its walk. -/
theorem breakdown_result (t : Node) : breakdown t =
    ((acts [.visit t] .initial).foldl Ledger.perform (Walker.ledger .initial)).result := by
  rw [breakdown_eq, ← run_ledger]
  rfl

/-! ### What acts add up to -/

/-- The construct an act scores. -/
def Act.registration? : Act → Option Registration
  | score r => some r
  | _ => none

/-- Whether an act adds a path. -/
def Act.addsPath : Act → Bool
  | score _ | path _ => true
  | _ => false

/-- The constructs a run scores, in order. -/
def scored (ts : List Task) (w : Walker) : List Registration :=
  (acts ts w).filterMap Act.registration?

theorem noteAll_eq (b : Breakdown) (kind : Construct) (depth : Nat) (found : List Construct) :
    Walker.noteAll b kind depth found = { b with
      structures := found.foldl (fun s child => s.noteNested kind depth child) b.structures } := by
  unfold Walker.noteAll
  induction found generalizing b with
  | nil => rfl
  | cons c found ih => exact ih (b.noteNested kind depth c)

/-- What a construct does to a breakdown. -/
theorem Registration.addTo_eq (r : Registration) (b : Breakdown) : r.addTo b = { b with
    dc := b.dc + r.dc
    cc := b.cc + 1
    lineScores := b.lineScores.upsert r.line fun n => n.getD 0 + r.dc
    structures := r.found.foldl (fun s child => s.noteNested r.kind r.depth child)
      (b.structures.record r.kind r.depth) } := noteAll_eq _ _ _ _

/-- A part of the breakdown that only constructs change is theirs to make. -/
theorem foldl_perform {β : Type*} (part : Breakdown → β) (f : β → Registration → β)
    (hscore : ∀ b r, part (r.addTo b) = f (part b) r)
    (hpath : ∀ b n, part (b.addPaths n) = part b)
    (hmethod : ∀ b s, part (b.closeMethod s) = part b)
    (hclass : ∀ b s, part (b.closeClass s) = part b) (as : List Act) (l : Ledger) :
    part (as.foldl Ledger.perform l).result =
      (as.filterMap Act.registration?).foldl f (part l.result) := by
  induction as generalizing l with
  | nil => rfl
  | cons a as ih =>
      have hstep : part (l.perform a).result =
          a.registration?.elim (part l.result) (f (part l.result)) := by
        match a with
        | .score r => exact hscore l.result r
        | .path true => exact hpath l.result 1
        | .path false => exact hpath l.result 1
        | .openMethod name => rfl
        | .openClass name => rfl
        | .closeMethod =>
            rw [Ledger.perform]
            split
            · rfl
            · exact hmethod _ _
        | .closeClass =>
            rw [Ledger.perform]
            split
            · rfl
            · exact hclass _ _
      rw [List.foldl_cons, ih, hstep, List.filterMap_cons]
      cases a.registration? <;> rfl

theorem foldl_perform_cc (as : List Act) (l : Ledger) :
    (as.foldl Ledger.perform l).result.cc = l.result.cc + as.countP Act.addsPath := by
  induction as generalizing l with
  | nil => rfl
  | cons a as ih =>
      have hstep : (l.perform a).result.cc = l.result.cc + if a.addsPath then 1 else 0 := by
        match a with
        | .score r =>
            rw [Ledger.perform, r.addTo_eq]
            rfl
        | .path true => rfl
        | .path false => rfl
        | .openMethod name => rfl
        | .openClass name => rfl
        | .closeMethod => rw [Ledger.perform]; split <;> rfl
        | .closeClass => rw [Ledger.perform]; split <;> rfl
      rw [List.foldl_cons, ih, hstep, List.countP_cons]
      omega

end DecisionScore.Python.Walk
