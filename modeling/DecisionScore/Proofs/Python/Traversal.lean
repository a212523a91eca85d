import Mathlib.Logic.Function.Iterate
import DecisionScore.Proofs.Python.Site

/-! # The walk is a recursive traversal

`traverse` visits a node the plain way: it calls itself on the parts of the node in document order
and puts level and condition count back to what they were.  `does_visit` shows, for every tree,
every state and every list of pending tasks, that the walk does the same: a visit comes back to the
tasks that were pending (`Reaches`), no level is left and no condition ended that was not entered,
and every scope is closed by the task that the visit to its definition scheduled (`Orderly`). -/

namespace DecisionScore.Python.Walk

/-! ### The traversal -/

namespace Walker

/-- Does something inside a scored condition. -/
def within (f : Walker → Walker) (w : Walker) : Walker :=
  { f { w with inCondition := w.inCondition + 1 } with inCondition := w.inCondition }

/-- The walker at a given depth. -/
def atDepth (w : Walker) (d : Nat) : Walker := { w with depth := d }

/-- The walker with a method opened. -/
def openMethod (w : Walker) (name : String) : Walker :=
  { w with methods := .start name :: w.methods }

/-- The walker with a class opened. -/
def openClass (w : Walker) (name : String) : Walker :=
  { w with classes := .start name :: w.classes }

end Walker

mutual

/-- Visits a node and all that is below it. -/
def traverse : Node → Walker → Walker
  | .node k r row s cs, w =>
    let n : Node := .node k r row s cs
    match k with
    | .functionDefinition => (traverseAll none cs (w.openMethod (nameOf n))).closeMethod
    | .classDefinition => (traverseAll none cs (w.openClass (nameOf n))).closeClass
    | .ifStatement =>
      (traverseClauses cs (traverseFirst .consequence cs
        (Walker.within (traverseFirst .condition cs) (scoreBranch w.descend n)))).atDepth w.depth
    | .whileStatement =>
      (traverseAll (conditionIndex? n) cs
        (w.descend.register .whileLoop n (n.child? .condition) (n.child? .body))).atDepth w.depth
    | .forStatement =>
      (traverseAll none cs (w.descend.register .forLoop n none (n.child? .body))).atDepth w.depth
    | .tryStatement => traverseAll none cs (w.register .tryBlock n none (n.child? .body))
    | .conditionalExpression =>
      traverseAll (conditionIndex? n) cs (w.register .ternary n (secondNamed? n) none)
    | .booleanOperator =>
      traverseAll none cs (if w.inCondition = 0 then w.addOperatorPath else w)
    | _ => traverseAll none cs w

/-- Visits nodes in order, the one of the given number as a scored condition. -/
def traverseAll : Option Nat → List Node → Walker → Walker
  | _, [], w => w
  | some 0, c :: cs, w => traverseAll none cs (Walker.within (traverse c) w)
  | some (i + 1), c :: cs, w => traverseAll (some i) cs (traverse c w)
  | none, c :: cs, w => traverseAll none cs (traverse c w)

/-- Visits the first node in a role. -/
def traverseFirst (r : Role) : List Node → Walker → Walker
  | [], w => w
  | c :: cs, w => if c.role = some r then traverse c w else traverseFirst r cs w

/-- Visits a clause of an `if` statement. -/
def traverseClause : Node → Walker → Walker
  | .node k r row s cs, w =>
    match k with
    | .elifClause => traverseFirst .consequence cs
        (Walker.within (traverseFirst .condition cs)
          (scoreBranch w.descend (.node k r row s cs)))
    | .elseClause => traverseAll none cs w
    | _ => w

/-- Visits the clauses of an `if` statement. -/
def traverseClauses : List Node → Walker → Walker
  | [], w => w
  | c :: cs, w => traverseClauses cs (traverseClause c w)

end

/-- Visits the condition and the consequence of an `if` or `elif`. -/
def traverseBranch (n : Node) (w : Walker) : Walker :=
  traverseFirst .consequence n.children (w.within (traverseFirst .condition n.children))

theorem traverseFirst_eq (r : Role) (cs : List Node) :
    traverseFirst r cs = match cs.find? (fun c => c.role == some r) with
      | none => id
      | some c => traverse c := by
  funext w
  induction cs with
  | nil => rfl
  | cons c cs ih =>
      rw [traverseFirst, List.find?_cons]
      by_cases h : c.role = some r
      · simp [h]
      · have hb : (c.role == some r) = false := by simpa using h
        simp only [h, if_false, hb]
        exact ih

theorem traverseFirst_of_some {n c : Node} {r : Role} (h : n.child? r = some c) :
    traverseFirst r n.children = traverse c := by
  unfold Tree.child? at h
  rw [traverseFirst_eq, h]

theorem traverseFirst_of_none {n : Node} {r : Role} (h : n.child? r = none) :
    traverseFirst r n.children = id := by
  unfold Tree.child? at h
  rw [traverseFirst_eq, h]

theorem traverse_eq (n : Node) (w : Walker) :
    traverse n w = match n.kind with
      | .functionDefinition => (traverseAll none n.children (w.openMethod (nameOf n))).closeMethod
      | .classDefinition => (traverseAll none n.children (w.openClass (nameOf n))).closeClass
      | .ifStatement => (traverseClauses n.children
          (traverseBranch n (scoreBranch w.descend n))).atDepth w.depth
      | .whileStatement => (traverseAll (conditionIndex? n) n.children
          (w.descend.register .whileLoop n (n.child? .condition) (n.child? .body))).atDepth w.depth
      | .forStatement => (traverseAll none n.children
          (w.descend.register .forLoop n none (n.child? .body))).atDepth w.depth
      | .tryStatement =>
        traverseAll none n.children (w.register .tryBlock n none (n.child? .body))
      | .conditionalExpression => traverseAll (conditionIndex? n) n.children
          (w.register .ternary n (secondNamed? n) none)
      | .booleanOperator =>
        traverseAll none n.children (if w.inCondition = 0 then w.addOperatorPath else w)
      | _ => traverseAll none n.children w := by
  obtain ⟨k, r, row, s, cs⟩ := n
  cases k <;> rfl

theorem traverseClause_eq (n : Node) (w : Walker) :
    traverseClause n w = match n.kind with
      | .elifClause => traverseBranch n (scoreBranch w.descend n)
      | .elseClause => traverseAll none n.children w
      | _ => w := by
  obtain ⟨k, r, row, s, cs⟩ := n
  cases k <;> rfl

/-! ### Visits with one scored condition

The three ways in which a visit schedules the children of a node differ only in which child is
visited as a scored condition. -/

/-- Visits to nodes in order, to the one of the given number as a scored condition. -/
def marked : Option Nat → List Node → List Task
  | _, [] => []
  | some 0, c :: cs => .condition c :: marked none cs
  | some (i + 1), c :: cs => .visit c :: marked (some i) cs
  | none, c :: cs => .visit c :: marked none cs

theorem visits_eq_marked (cs : List Node) : visits cs = marked none cs := by
  induction cs with
  | nil => rfl
  | cons c cs ih => rw [marked, ← ih]; rfl

theorem marked_map_succ (i : Option Nat) (c : Node) (cs : List Node) :
    marked (i.map (· + 1)) (c :: cs) = .visit c :: marked i cs := by
  cases i <;> rfl

theorem visitsIn_eq_marked (r : Role) (cs : List Node) :
    visitsIn r cs = marked (cs.findIdx? fun c => c.role == some r) cs := by
  induction cs with
  | nil => rfl
  | cons c cs ih =>
      rw [visitsIn, List.findIdx?_cons]
      by_cases h : c.role = some r
      · simp only [h, if_true, beq_self_eq_true]
        rw [visits_eq_marked]
        rfl
      · have hb : (c.role == some r) = false := by simpa using h
        simp only [h, if_false, hb, ih]
        exact (marked_map_succ _ c cs).symm

theorem namedIndex?_cons (j : Nat) (c : Node) (cs : List Node) :
    namedIndex? j (c :: cs) =
      if c.kind.isNamed then
        match j with
        | 0 => some 0
        | i + 1 => (namedIndex? i cs).map (· + 1)
      else (namedIndex? j cs).map (· + 1) := by
  have hshift : (cs.zipIdx 1).filter (·.1.kind.isNamed)
      = (cs.zipIdx.filter (·.1.kind.isNamed)).map (fun x => (x.1, x.2 + 1)) := by
    rw [show cs.zipIdx 1 = cs.zipIdx.map (fun x => (x.1, x.2 + 1)) from
      List.zipIdx_succ, List.filter_map]
    rfl
  unfold namedIndex?
  rw [List.zipIdx_cons, List.filter_cons, hshift]
  by_cases h : c.kind.isNamed = true
  · cases j with
    | zero => simp [h]
    | succ i => simp [h, Function.comp_def]
  · simp [h, Function.comp_def]

theorem visitsNamed_none (cs : List Node) : visitsNamed none cs = marked none cs := by
  induction cs with
  | nil => rfl
  | cons c cs ih => rw [visitsNamed, marked, ih]

theorem visitsNamed_eq_marked (j : Nat) (cs : List Node) :
    visitsNamed (some j) cs = marked (namedIndex? j cs) cs := by
  induction cs generalizing j with
  | nil => rfl
  | cons c cs ih =>
      rw [namedIndex?_cons]
      by_cases h : c.kind.isNamed = true
      · cases j with
        | zero => simp only [visitsNamed, h, if_true, visitsNamed_none]; rfl
        | succ i =>
            simp only [visitsNamed, h, if_true, ih]
            exact (marked_map_succ _ c cs).symm
      · have hstep : visitsNamed (some j) (c :: cs) = .visit c :: visitsNamed (some j) cs := by
          cases j <;> simp [visitsNamed, h]
        simp only [hstep, h, if_false, ih, Bool.false_eq_true]
        exact (marked_map_succ _ c cs).symm

/-! ### Moments of a walk -/

/-- The tasks still to be done, the next one first, and the state of the walk. -/
structure Moment where
  tasks : List Task
  walker : Walker

namespace Moment

/-- Does the next task. -/
def next (m : Moment) : Moment :=
  match m.tasks with
  | [] => m
  | t :: ts => ⟨(step m.walker t).2 ++ ts, (step m.walker t).1⟩

/-- After a number of tasks. -/
def after (m : Moment) (i : Nat) : Moment := next^[i] m

@[simp] theorem after_zero (m : Moment) : m.after 0 = m := rfl

theorem after_succ (m : Moment) (i : Nat) : m.after (i + 1) = m.next.after i := rfl

theorem after_add (m : Moment) (i j : Nat) : m.after (i + j) = (m.after i).after j := by
  unfold after
  rw [Nat.add_comm, Function.iterate_add_apply]

end Moment

theorem run_next (m : Moment) : run m.next.tasks m.next.walker = run m.tasks m.walker := by
  unfold Moment.next
  cases h : m.tasks with
  | nil => simp only [h]
  | cons t ts => simp only [run]

theorem run_after (m : Moment) (i : Nat) :
    run (m.after i).tasks (m.after i).walker = run m.tasks m.walker := by
  induction i generalizing m with
  | zero => rfl
  | succ i ih => rw [Moment.after_succ, ih, run_next]

/-- The names of open scopes. -/
def names (scopes : List Scope) : List String := scopes.map (·.name)

/-- The task done at moment `i` was scheduled by the visit to a definition `f` at an earlier moment
`j`, it has been pending ever since, and the innermost scope is the one that was opened for `f`:
the others are those that were open before. -/
def ClosesOwn (m : Moment) (i : Nat) (kind : Kind) (scopes : Walker → List Scope) (close : Task)
    (rest : List Task) : Prop :=
  ∃ j < i, ∃ f : Node, f.kind = kind ∧ (m.after j).tasks = .visit f :: rest ∧
    (∀ l, j < l → l ≤ i → close :: rest <:+ (m.after l).tasks) ∧
    names (scopes (m.after i).walker) = nameOf f :: names (scopes (m.after j).walker)

/-- At moment `i` there is something to take back, if the next task takes something back: a level,
a condition, or the scope opened by the definition the task belongs to. -/
def Orderly (m : Moment) (i : Nat) : Prop :=
  match (m.after i).tasks with
  | .ascend :: _ => 0 < (m.after i).walker.depth
  | .endCondition :: _ => 0 < (m.after i).walker.inCondition
  | .closeMethod :: rest => ClosesOwn m i .functionDefinition Walker.methods .closeMethod rest
  | .closeClass :: rest => ClosesOwn m i .classDefinition Walker.classes .closeClass rest
  | _ => True

/-- From moment `m` the walk comes to moment `m'`.  Up to then there is always a task to be done
before those of `rest`, and every moment is orderly. -/
def Reaches (rest : List Task) (m m' : Moment) : Prop :=
  ∃ k, m.after k = m' ∧
    ∀ i < k, (∃ t ts, (m.after i).tasks = t :: (ts ++ rest)) ∧ Orderly m i

theorem ClosesOwn.shift {m : Moment} {a i : Nat} {kind : Kind} {scopes : Walker → List Scope}
    {close : Task} {rest : List Task} (h : ClosesOwn (m.after a) i kind scopes close rest) :
    ClosesOwn m (a + i) kind scopes close rest := by
  obtain ⟨j, hj, f, hf, hv, hp, hn⟩ := h
  rw [← Moment.after_add] at hv
  refine ⟨a + j, by omega, f, hf, hv, ?_, ?_⟩
  · intro l hl hli
    have := hp (l - a) (by omega) (by omega)
    rwa [← Moment.after_add, Nat.add_sub_cancel' (by omega)] at this
  · rwa [← Moment.after_add, ← Moment.after_add] at hn

theorem Orderly.shift {m : Moment} {a i : Nat} (h : Orderly (m.after a) i) :
    Orderly m (a + i) := by
  unfold Orderly at h ⊢
  rw [← Moment.after_add] at h
  split <;> simp_all [ClosesOwn.shift]

theorem Reaches.refl (rest : List Task) (m : Moment) : Reaches rest m m :=
  ⟨0, rfl, fun i hi => absurd hi (by omega)⟩

theorem Reaches.trans {rest : List Task} {m₁ m₂ m₃ : Moment} (h₁ : Reaches rest m₁ m₂)
    (h₂ : Reaches rest m₂ m₃) : Reaches rest m₁ m₃ := by
  obtain ⟨k₁, rfl, ho₁⟩ := h₁
  obtain ⟨k₂, rfl, ho₂⟩ := h₂
  refine ⟨k₁ + k₂, Moment.after_add .., ?_⟩
  intro i hi
  rcases Nat.lt_or_ge i k₁ with h | h
  · exact ho₁ i h
  · obtain ⟨j, rfl⟩ : ∃ j, i = k₁ + j := ⟨i - k₁, by omega⟩
    have := ho₂ j (by omega)
    rw [Moment.after_add]
    exact ⟨this.1, this.2.shift⟩

/-- One task. -/
theorem Reaches.single {rest ts : List Task} {t : Task} {m : Moment}
    (hm : m.tasks = t :: (ts ++ rest)) (ho : Orderly m 0) : Reaches rest m m.next := by
  refine ⟨1, rfl, ?_⟩
  intro i hi
  obtain rfl : i = 0 := by omega
  exact ⟨⟨t, ts, hm⟩, ho⟩

theorem Reaches.mono {us rest : List Task} {m m' : Moment} (h : Reaches (us ++ rest) m m') :
    Reaches rest m m' := by
  obtain ⟨k, hk, ho⟩ := h
  refine ⟨k, hk, fun i hi => ?_⟩
  obtain ⟨⟨t, ts, ht⟩, hi'⟩ := ho i hi
  exact ⟨⟨t, ts ++ us, by rw [ht, List.append_assoc]⟩, hi'⟩

/-- Doing the tasks `ts` takes the walk from `w` to `w'`, whatever else is pending. -/
def Does (ts : List Task) (w w' : Walker) : Prop :=
  ∀ rest, Reaches rest ⟨ts ++ rest, w⟩ ⟨rest, w'⟩

theorem Does.run_eq {ts rest : List Task} {w w' : Walker} (h : Does ts w w') :
    run (ts ++ rest) w = run rest w' := by
  obtain ⟨k, hk, -⟩ := h rest
  have := run_after ⟨ts ++ rest, w⟩ k
  rw [hk] at this
  exact this.symm

theorem Does.nil (w : Walker) : Does [] w w := fun rest => Reaches.refl rest _

theorem Does.append {ts us : List Task} {w₁ w₂ w₃ : Walker} (h₁ : Does ts w₁ w₂)
    (h₂ : Does us w₂ w₃) : Does (ts ++ us) w₁ w₃ := by
  intro rest
  have h := h₁ (us ++ rest)
  rw [← List.append_assoc] at h
  exact h.mono.trans (h₂ rest)

/-- A task that takes nothing back, and then the tasks that follow from it. -/
theorem Does.task {t : Task} {w w' : Walker} (ho : ∀ ts, Orderly ⟨t :: ts, w⟩ 0)
    (h : Does (step w t).2 (step w t).1 w') : Does [t] w w' := by
  intro rest
  have hm : (Moment.mk (t :: rest) w).tasks = t :: ([] ++ rest) := rfl
  exact (Reaches.single hm (ho rest)).trans (h rest)

theorem Does.visit {n : Node} {w w' : Walker}
    (h : Does (Walk.visit w n).2 (Walk.visit w n).1 w') : Does [.visit n] w w' :=
  Does.task (fun _ => trivial) h

theorem Does.ascend {w : Walker} (h : 0 < w.depth) :
    Does [.ascend] w (w.atDepth (w.depth - 1)) :=
  Does.task (fun _ => h) (Does.nil _)

/-- Leaving several levels. -/
theorem Does.ascends {w : Walker} {k : Nat} (h : k ≤ w.depth) :
    Does (List.replicate k .ascend) w (w.atDepth (w.depth - k)) := by
  induction k generalizing w with
  | zero => exact Does.nil w
  | succ k ih =>
      have h₁ : Does [.ascend] w (w.atDepth (w.depth - 1)) := Does.ascend (by omega)
      have h₂ := ih (w := w.atDepth (w.depth - 1)) (by simp only [Walker.atDepth]; omega)
      have h₃ := h₁.append h₂
      simp only [Walker.atDepth, Nat.sub_sub, Nat.add_comm 1 k] at h₃
      exact h₃

/-- A visit as a scored condition. -/
theorem Does.condition {c : Node} {w w' : Walker}
    (h : Does [.visit c] { w with inCondition := w.inCondition + 1 } w')
    (hc : w'.inCondition = w.inCondition + 1) :
    Does [.condition c] w { w' with inCondition := w.inCondition } := by
  have hend : Does [.endCondition] w' { w' with inCondition := w'.inCondition - 1 } :=
    Does.task (fun _ => by show 0 < w'.inCondition; omega) (Does.nil _)
  have hboth := h.append hend
  rw [hc, Nat.add_sub_cancel] at hboth
  exact Does.task (fun _ => trivial) hboth

/-- From the visit to a definition to the end of its closing task: what the visit schedules before
that task comes back to it, and finds the scope of the definition innermost. -/
theorem Reaches.closing {m : Moment} {n : Node} {w : Walker} {kind : Kind} {close : Task}
    {scopes : Walker → List Scope} {rest : List Task} (hk : n.kind = kind)
    (hm : m.tasks = .visit n :: rest) (hc : (step w close).2 = [])
    (ho : ∀ i, (m.after i).tasks = close :: rest → ClosesOwn m i kind scopes close rest →
      Orderly m i)
    (h : Reaches (close :: rest) m.next ⟨close :: rest, w⟩)
    (hn : names (scopes w) = nameOf n :: names (scopes m.walker)) :
    Reaches rest m ⟨rest, (step w close).1⟩ := by
  obtain ⟨k, hlast, hinner⟩ := h
  have hclose : m.after (k + 1) = ⟨close :: rest, w⟩ := hlast
  have hpending : ∀ l, 0 < l → l ≤ k + 1 → close :: rest <:+ (m.after l).tasks := by
    intro l hl hlk
    obtain ⟨i, rfl⟩ : ∃ i, l = i + 1 := ⟨l - 1, by omega⟩
    rcases Nat.lt_or_ge i k with hik | hik
    · obtain ⟨⟨t, ts, ht⟩, -⟩ := hinner i hik
      rw [Moment.after_succ, ht]
      exact ⟨t :: ts, rfl⟩
    · obtain rfl : i = k := by omega
      exact hclose ▸ List.suffix_rfl
  refine ⟨k + 1 + 1, ?_, ?_⟩
  · rw [Moment.after_add, hclose, Moment.after_succ, Moment.after_zero]
    simp only [Moment.next, hc, List.nil_append]
  · intro i hi
    rcases Nat.eq_zero_or_pos i with rfl | hpos
    · exact ⟨⟨.visit n, [], hm⟩, by simp only [Orderly, Moment.after_zero, hm]⟩
    · rcases Nat.lt_or_ge i (k + 1) with hik | hik
      · obtain ⟨j, rfl⟩ : ∃ j, i = 1 + j := ⟨i - 1, by omega⟩
        obtain ⟨⟨t, ts, ht⟩, hj⟩ := hinner j (by omega)
        have hj' : Orderly (m.after 1) j := hj
        refine ⟨⟨t, ts ++ [close], ?_⟩, hj'.shift⟩
        rw [Moment.after_add]
        show (m.next.after j).tasks = _
        rw [ht, List.append_assoc, List.singleton_append]
      · obtain rfl : i = k + 1 := by omega
        refine ⟨⟨close, [], by rw [hclose]; rfl⟩, ho (k + 1) (by rw [hclose]) ?_⟩
        exact ⟨0, by omega, n, hk, hm, hpending, by rw [hclose]; exact hn⟩

/-- A definition: its scope is opened, its children are visited, and its scope is closed. -/
theorem Does.definition (scopes : Walker → List Scope) (close : Task) {n : Node}
    {w w₁ w₂ : Walker} {kind : Kind} (hk : n.kind = kind)
    (hv : Walk.visit w n = (w₁, visits n.children ++ [close])) (hc : (step w₂ close).2 = [])
    (ho : ∀ m i rest, (Moment.after m i).tasks = close :: rest →
      ClosesOwn m i kind scopes close rest → Orderly m i)
    (h : Does (visits n.children) w₁ w₂)
    (hn : names (scopes w₂) = nameOf n :: names (scopes w)) :
    Does [.visit n] w (step w₂ close).1 := by
  intro rest
  have hnext : (Moment.mk ([.visit n] ++ rest) w).next =
      ⟨visits n.children ++ close :: rest, w₁⟩ := by
    simp [Moment.next, step, hv]
  refine Reaches.closing hk rfl hc (fun i => ho _ i rest) ?_ hn
  rw [hnext]
  exact h _

/-! ### What a visit leaves as it was -/

/-- Depth, condition count and the open scopes are the same, up to the scores collected. -/
structure Keeps (w w' : Walker) : Prop where
  depth : w'.depth = w.depth
  inCondition : w'.inCondition = w.inCondition
  methods : names w'.methods = names w.methods
  classes : names w'.classes = names w.classes

theorem Keeps.refl (w : Walker) : Keeps w w := ⟨rfl, rfl, rfl, rfl⟩

theorem Keeps.trans {w₁ w₂ w₃ : Walker} (h₁ : Keeps w₁ w₂) (h₂ : Keeps w₂ w₃) : Keeps w₁ w₃ :=
  ⟨h₂.depth.trans h₁.depth, h₂.inCondition.trans h₁.inCondition, h₂.methods.trans h₁.methods,
    h₂.classes.trans h₁.classes⟩

@[simp] theorem names_charge (dc : Nat) (ss : List Scope) :
    names (Walker.onInnermost (·.charge dc) ss) = names ss := by
  cases ss <;> rfl

@[simp] theorem names_addPaths (k : Nat) (ss : List Scope) :
    names (Walker.onInnermost (·.addPaths k) ss) = names ss := by
  cases ss <;> rfl

theorem keeps_register (w : Walker) (kind : Construct) (n : Node) (condition body : Option Node) :
    Keeps w (w.register kind n condition body) :=
  ⟨rfl, rfl, names_charge _ _, names_charge _ _⟩

theorem keeps_addOperatorPath (w : Walker) : Keeps w w.addOperatorPath := by
  unfold Walker.addOperatorPath
  cases h : w.methods with
  | nil => exact ⟨rfl, rfl, by simp [h], names_addPaths _ _⟩
  | cons s ss => exact ⟨rfl, rfl, by simp [h], rfl⟩

theorem keeps_operator (w : Walker) :
    Keeps w (if w.inCondition = 0 then w.addOperatorPath else w) := by
  split
  · exact keeps_addOperatorPath w
  · exact Keeps.refl w

theorem keeps_closeMethod {w w' : Walker} {name : String} (h : Keeps (w.openMethod name) w') :
    Keeps w w'.closeMethod := by
  have hm : names w'.methods = name :: names w.methods := h.methods
  unfold Walker.closeMethod
  cases hs : w'.methods with
  | nil => simp [hs, names] at hm
  | cons s ss =>
      rw [hs] at hm
      exact ⟨h.depth, h.inCondition, (List.cons.inj hm).2, h.classes⟩

theorem keeps_closeClass {w w' : Walker} {name : String} (h : Keeps (w.openClass name) w') :
    Keeps w w'.closeClass := by
  have hc : names w'.classes = name :: names w.classes := h.classes
  unfold Walker.closeClass
  cases hs : w'.classes with
  | nil => simp [hs, names] at hc
  | cons s ss =>
      rw [hs] at hc
      exact ⟨h.depth, h.inCondition, h.methods, (List.cons.inj hc).2⟩

/-- Entering a level, doing what keeps it, and leaving it. -/
theorem Keeps.atDepth {w w' : Walker} {d : Nat} (h : Keeps (w.atDepth d) w') :
    Keeps w (w'.atDepth w.depth) :=
  ⟨rfl, h.inCondition, h.methods, h.classes⟩

theorem Keeps.within {w : Walker} {f : Walker → Walker} (h : ∀ v, Keeps v (f v)) :
    Keeps w (w.within f) := by
  have := h { w with inCondition := w.inCondition + 1 }
  exact ⟨this.depth, rfl, this.methods, this.classes⟩

/-! ### The walk does what the traversal does -/

/-- The walk visits `n` as the traversal does, and both leave level, condition count and open
scopes as they were. -/
def Agrees (n : Node) : Prop :=
  ∀ w, Does [.visit n] w (traverse n w) ∧ Keeps w (traverse n w)

theorem Agrees.condition {c : Node} (h : Agrees c) (w : Walker) :
    Does [.condition c] w (w.within (traverse c)) ∧ Keeps w (w.within (traverse c)) :=
  ⟨Does.condition (h _).1 (h _).2.inCondition, Keeps.within fun v => (h v).2⟩

theorem agrees_all {cs : List Node} (h : ∀ c ∈ cs, Agrees c) (i : Option Nat) (w : Walker) :
    Does (marked i cs) w (traverseAll i cs w) ∧ Keeps w (traverseAll i cs w) := by
  induction cs generalizing i w with
  | nil => cases i <;> exact ⟨Does.nil w, Keeps.refl w⟩
  | cons c cs ih =>
      have hc := h c List.mem_cons_self
      have hcs := ih fun d hd => h d (List.mem_cons_of_mem c hd)
      match i with
      | none =>
          have hrest := hcs none (traverse c w)
          exact ⟨(hc w).1.append hrest.1, (hc w).2.trans hrest.2⟩
      | some 0 =>
          have hrest := hcs none (w.within (traverse c))
          exact ⟨(hc.condition w).1.append hrest.1, (hc.condition w).2.trans hrest.2⟩
      | some (i + 1) =>
          have hrest := hcs (some i) (traverse c w)
          exact ⟨(hc w).1.append hrest.1, (hc w).2.trans hrest.2⟩

theorem agrees_branch {n : Node} (h : ∀ c ∈ n.children, Agrees c) (w : Walker) :
    Does (branchTasks n) w (traverseBranch n w) ∧ Keeps w (traverseBranch n w) := by
  have htasks : branchTasks n = (n.child? .condition).elim [] (fun c => [.condition c]) ++
      (n.child? .consequence).elim [] (fun b => [.visit b]) := by
    unfold branchTasks
    cases n.child? .condition <;> cases n.child? .consequence <;> rfl
  have hfirst : ∃ v, Does ((n.child? .condition).elim [] fun c => [.condition c]) w v ∧
      Keeps w v ∧ v = w.within (traverseFirst .condition n.children) := by
    cases hc : n.child? .condition with
    | none => exact ⟨w, Does.nil w, Keeps.refl w, by rw [traverseFirst_of_none hc]; rfl⟩
    | some c =>
        have hcond := (h c (Tree.mem_of_child? hc)).condition w
        exact ⟨_, hcond.1, hcond.2, by rw [traverseFirst_of_some hc]⟩
  obtain ⟨v, hdoes, hkeeps, hv⟩ := hfirst
  unfold traverseBranch
  rw [htasks, ← hv]
  cases hb : n.child? .consequence with
  | none =>
      rw [traverseFirst_of_none hb]
      exact ⟨hdoes.append (Does.nil v), hkeeps⟩
  | some b =>
      rw [traverseFirst_of_some hb]
      have hbody := h b (Tree.mem_of_child? hb) v
      exact ⟨hdoes.append hbody.1, hkeeps.trans hbody.2⟩

/-- An `elif` clause is visited one level deeper, and the walk stays there. -/
theorem agrees_clause {c : Node} (h : ∀ d ∈ c.children, Agrees d) (w : Walker) :
    Does (alternativeTasks c) w (traverseClause c w) ∧
      Keeps (w.atDepth (w.depth + if isElif c then 1 else 0)) (traverseClause c w) := by
  obtain ⟨k, r, row, s, cs⟩ := c
  cases k
  case elifClause =>
    have hb := agrees_branch h (scoreBranch w.descend (.node .elifClause r row s cs))
    have hd : Does [.elif (.node .elifClause r row s cs)] w
        (traverseClause (.node .elifClause r row s cs) w) :=
      Does.task (fun _ => trivial) hb.1
    exact ⟨hd, (keeps_register _ _ _ _ _).trans hb.2⟩
  case elseClause =>
    have hcs := agrees_all h none w
    rw [← visits_eq_marked] at hcs
    exact hcs
  all_goals exact ⟨Does.nil w, Keeps.refl w⟩

theorem agrees_clauses {cs : List Node} (h : ∀ c ∈ cs, ∀ d ∈ c.children, Agrees d) (w : Walker) :
    Does (cs.flatMap alternativeTasks) w (traverseClauses cs w) ∧
      Keeps (w.atDepth (w.depth + cs.countP isElif)) (traverseClauses cs w) := by
  induction cs generalizing w with
  | nil => exact ⟨Does.nil w, Keeps.refl w⟩
  | cons c cs ih =>
      obtain ⟨hdoes, hkeeps⟩ := agrees_clause (h c List.mem_cons_self) w
      have hrest := ih (fun d hd => h d (List.mem_cons_of_mem c hd)) (traverseClause c w)
      refine ⟨hdoes.append hrest.1, ⟨?_, ?_, ?_, ?_⟩⟩
      · rw [traverseClauses, hrest.2.depth, List.countP_cons]
        simp only [Walker.atDepth, hkeeps.depth]
        omega
      · exact hrest.2.inCondition.trans hkeeps.inCondition
      · exact hrest.2.methods.trans hkeeps.methods
      · exact hrest.2.classes.trans hkeeps.classes

/-- A statement that opens levels, and leaves them when its parts are done. -/
theorem agrees_levels {n : Node} {w w₁ w₂ : Walker} {ts : List Task} {k : Nat}
    (hv : Walk.visit w n = (w₁, ts ++ List.replicate k .ascend)) (h : Does ts w₁ w₂)
    (hk : Keeps (w.atDepth (w.depth + k)) w₂) :
    Does [.visit n] w (w₂.atDepth w.depth) ∧ Keeps w (w₂.atDepth w.depth) := by
  have hd : w₂.depth = w.depth + k := hk.depth
  have hup : Does (List.replicate k .ascend) w₂ (w₂.atDepth w.depth) := by
    have := Does.ascends (w := w₂) (k := k) (by omega)
    rwa [hd, Nat.add_sub_cancel] at this
  refine ⟨Does.visit ?_, hk.atDepth⟩
  rw [hv]
  exact h.append hup

theorem agrees_function {n : Node} (hk : n.kind = .functionDefinition)
    (h : ∀ c ∈ n.children, Agrees c) : Agrees n := by
  intro w
  have ht : traverse n w =
      (traverseAll none n.children (w.openMethod (nameOf n))).closeMethod := by
    rw [traverse_eq, hk]
  obtain ⟨hdoes, hkeeps⟩ := agrees_all h none (w.openMethod (nameOf n))
  rw [← visits_eq_marked] at hdoes
  rw [ht]
  have ho : ∀ m i rest, (Moment.after m i).tasks = .closeMethod :: rest →
      ClosesOwn m i .functionDefinition Walker.methods .closeMethod rest → Orderly m i := by
    intro m i rest hi hc
    simpa only [Orderly, hi] using hc
  exact ⟨Does.definition Walker.methods .closeMethod hk (by rw [visit, hk]; rfl) rfl ho hdoes
    hkeeps.methods, keeps_closeMethod hkeeps⟩

theorem agrees_class {n : Node} (hk : n.kind = .classDefinition)
    (h : ∀ c ∈ n.children, Agrees c) : Agrees n := by
  intro w
  have ht : traverse n w = (traverseAll none n.children (w.openClass (nameOf n))).closeClass := by
    rw [traverse_eq, hk]
  obtain ⟨hdoes, hkeeps⟩ := agrees_all h none (w.openClass (nameOf n))
  rw [← visits_eq_marked] at hdoes
  rw [ht]
  have ho : ∀ m i rest, (Moment.after m i).tasks = .closeClass :: rest →
      ClosesOwn m i .classDefinition Walker.classes .closeClass rest → Orderly m i := by
    intro m i rest hi hc
    simpa only [Orderly, hi] using hc
  exact ⟨Does.definition Walker.classes .closeClass hk (by rw [visit, hk]; rfl) rfl ho hdoes
    hkeeps.classes, keeps_closeClass hkeeps⟩

theorem agrees_if {n : Node} (hk : n.kind = .ifStatement) (h : ∀ c ∈ n.children, Agrees c)
    (h' : ∀ c ∈ n.children, ∀ d ∈ c.children, Agrees d) : Agrees n := by
  intro w
  obtain ⟨hb, hbk⟩ := agrees_branch h (scoreBranch w.descend n)
  obtain ⟨hc, hck⟩ := agrees_clauses h' (traverseBranch n (scoreBranch w.descend n))
  have hv : visit w n = (scoreBranch w.descend n,
      (branchTasks n ++ n.children.flatMap alternativeTasks) ++
        List.replicate (levelsOf n) .ascend) := by
    rw [visit, hk]
  have ht : traverse n w = (traverseClauses n.children
      (traverseBranch n (scoreBranch w.descend n))).atDepth w.depth := by
    rw [traverse_eq, hk]
  have hs : Keeps w.descend (traverseBranch n (scoreBranch w.descend n)) :=
    (keeps_register _ _ _ _ _).trans hbk
  have hd : (traverseBranch n (scoreBranch w.descend n)).depth = w.depth + 1 := hs.depth
  rw [ht]
  refine agrees_levels hv (hb.append hc) ⟨?_, ?_, ?_, ?_⟩
  · rw [hck.depth]
    show _ + n.children.countP isElif = w.depth + (1 + n.children.countP isElif)
    rw [hd, Nat.add_assoc]
  · exact hck.inCondition.trans hs.inCondition
  · exact hck.methods.trans hs.methods
  · exact hck.classes.trans hs.classes

/-- A loop: scored one level deeper, its children visited there. -/
theorem agrees_loop {n : Node} {w : Walker} {kind : Construct} {condition body : Option Node}
    {i : Option Nat} (h : ∀ c ∈ n.children, Agrees c)
    (hv : visit w n = (w.descend.register kind n condition body,
      marked i n.children ++ List.replicate 1 .ascend))
    (ht : traverse n w =
      (traverseAll i n.children (w.descend.register kind n condition body)).atDepth w.depth) :
    Does [.visit n] w (traverse n w) ∧ Keeps w (traverse n w) := by
  obtain ⟨hdoes, hkeeps⟩ := agrees_all h i (w.descend.register kind n condition body)
  rw [ht]
  exact agrees_levels hv hdoes ((keeps_register _ _ _ _ _).trans hkeeps)

/-- A node that opens nothing. -/
theorem agrees_flat {n : Node} {w w₁ : Walker} {i : Option Nat} (h : ∀ c ∈ n.children, Agrees c)
    (hv : visit w n = (w₁, marked i n.children)) (ht : traverse n w = traverseAll i n.children w₁)
    (hk : Keeps w w₁) : Does [.visit n] w (traverse n w) ∧ Keeps w (traverse n w) := by
  obtain ⟨hdoes, hkeeps⟩ := agrees_all h i w₁
  rw [ht]
  refine ⟨Does.visit ?_, hk.trans hkeeps⟩
  rw [hv]
  exact hdoes

theorem agrees (n : Node) : Agrees n := by
  have ih : ∀ c ∈ n.children, Agrees c := fun c hc =>
    have := Tree.size_lt_of_mem hc
    agrees c
  cases hk : n.kind
  case functionDefinition => exact agrees_function hk ih
  case classDefinition => exact agrees_class hk ih
  case ifStatement =>
    refine agrees_if hk ih fun c hc d hd => ?_
    have := Tree.size_lt_of_mem hc
    have := Tree.size_lt_of_mem hd
    exact agrees d
  case whileStatement =>
    intro w
    refine agrees_loop ih ?_ (by rw [traverse_eq, hk])
    rw [visit, hk, visitsIn_eq_marked, conditionIndex?, hk]
    rfl
  case forStatement =>
    intro w
    exact agrees_loop ih (by rw [visit, hk, visits_eq_marked]; rfl) (by rw [traverse_eq, hk])
  case tryStatement =>
    intro w
    exact agrees_flat ih (by rw [visit, hk, visits_eq_marked]) (by rw [traverse_eq, hk])
      (keeps_register _ _ _ _ _)
  case conditionalExpression =>
    intro w
    refine agrees_flat ih ?_ (by rw [traverse_eq, hk]) (keeps_register _ _ _ _ _)
    rw [visit, hk, visitsNamed_eq_marked, conditionIndex?, hk]
  case booleanOperator =>
    intro w
    exact agrees_flat ih (by rw [visit, hk, visits_eq_marked]) (by rw [traverse_eq, hk])
      (keeps_operator w)
  all_goals
    intro w
    exact agrees_flat ih (by rw [visit, hk, visits_eq_marked]) (by rw [traverse_eq, hk])
      (Keeps.refl w)
termination_by n.size

theorem run_visit (n : Node) (rest : List Task) (w : Walker) :
    run (.visit n :: rest) w = run rest (traverse n w) := (agrees n w).1.run_eq

theorem run_root (n : Node) : run [.visit n] .initial = traverse n .initial := by
  rw [run_visit, run]

theorem eq_nil_of_names {ss : List Scope} (h : names ss = []) : ss = [] := List.map_eq_nil_iff.mp h

/-- Nothing is open after the walk, so that closing what is open changes nothing. -/
theorem breakdown_eq (n : Node) : breakdown n = (run [.visit n] .initial).result := by
  have hkeeps := (agrees n .initial).2
  unfold breakdown finish
  rw [run_root, eq_nil_of_names hkeeps.methods, eq_nil_of_names hkeeps.classes]
  rfl

/-- **Every visit is balanced.**  From any state and with any tasks pending, a visit to any tree
ends, comes back to exactly those tasks, and leaves level, condition count and the names of the
open scopes as they were; on the way no level is left, no condition ended and no scope closed but
the one that was entered for it.  The walk is therefore the recursive traversal, and ends with
nothing left open. -/
theorem visit_balanced (n : Node) (rest : List Task) (w : Walker) :
    Reaches rest ⟨.visit n :: rest, w⟩ ⟨rest, traverse n w⟩ ∧
    (traverse n w).depth = w.depth ∧ (traverse n w).inCondition = w.inCondition ∧
    names (traverse n w).methods = names w.methods ∧
    names (traverse n w).classes = names w.classes ∧
    run (.visit n :: rest) w = run rest (traverse n w) ∧
    run [.visit n] .initial = traverse n .initial ∧
    (run [.visit n] .initial).depth = 0 ∧ (run [.visit n] .initial).inCondition = 0 ∧
    (run [.visit n] .initial).methods = [] ∧ (run [.visit n] .initial).classes = [] ∧
    breakdown n = (run [.visit n] .initial).result := by
  obtain ⟨hdoes, hkeeps⟩ := agrees n w
  have hroot := (agrees n .initial).2
  refine ⟨hdoes rest, hkeeps.depth, hkeeps.inCondition, hkeeps.methods, hkeeps.classes,
    run_visit n rest w, run_root n, ?_⟩
  rw [run_root]
  exact ⟨hroot.depth, hroot.inCondition, eq_nil_of_names hroot.methods,
    eq_nil_of_names hroot.classes, run_root n ▸ breakdown_eq n⟩

end DecisionScore.Python.Walk
