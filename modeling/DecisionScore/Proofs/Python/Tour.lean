import DecisionScore.Proofs.Python.History
import DecisionScore.Proofs.Python.Shape

/-! # The walk follows the tour

`Visit.acts` says what entering and leaving a site is to do to the scores: a construct is scored at
the level of its site, a boolean operator adds a path if its site is free, and a definition opens
and closes its scope.  `acts_visit` shows that the walk of a shaped tree does just this, site by
site: the level and the condition count that it moves up and down as it goes are those of the
sites (`Fits`). -/

namespace DecisionScore.Python

open Walk

/-! ### What the tour does to the scores -/

namespace Site

/-- The construct at a site, scored at the level of the site. -/
def registration? (p : Site) : Option Registration :=
  p.node.kind.construct?.map fun k => ⟨k, p.node, p.level, condition? p.node, body? p.node⟩

/-- What entering a site does to the scores. -/
def enterActs (p : Site) : List Act :=
  match p.node.kind with
  | .functionDefinition => [.openMethod (nameOf p.node)]
  | .classDefinition => [.openClass (nameOf p.node)]
  | .booleanOperator =>
    if p.isFree then [.path (p.innermost? .functionDefinition).isSome] else []
  | _ => p.registration?.toList.map .score

/-- What leaving a site does to the scores. -/
def leaveActs (p : Site) : List Act :=
  match p.node.kind with
  | .functionDefinition => [.closeMethod]
  | .classDefinition => [.closeClass]
  | _ => []

end Site

/-- What a moment of a tour does to the scores. -/
def Visit.acts : Visit → List Act
  | enter p => p.enterActs
  | leave p => p.leaveActs

/-- What the tour of a node does to the scores. -/
def tourActs (above : List Ancestor) (n : Node) : List Act := (tourFrom above n).flatMap Visit.acts

/-- What the tour of the children of a node from number `i` on does to the scores. -/
def tourActsBelow (n : Node) (above : List Ancestor) (i : Nat) (cs : List Node) : List Act :=
  (tourBelow n above i cs).flatMap Visit.acts

theorem tourActs_eq (above : List Ancestor) (n : Node) :
    tourActs above n = Site.enterActs ⟨n, above⟩ ++
      (tourActsBelow n above 0 n.children ++ Site.leaveActs ⟨n, above⟩) := by
  unfold tourActs tourActsBelow
  rw [tourFrom_eq, List.flatMap_cons, List.flatMap_append, List.flatMap_singleton]
  rfl

@[simp] theorem tourActsBelow_nil (n : Node) (above : List Ancestor) (i : Nat) :
    tourActsBelow n above i [] = [] := by
  unfold tourActsBelow
  rw [tourBelow_nil, List.flatMap_nil]

theorem tourActsBelow_cons (n : Node) (above : List Ancestor) (i : Nat) (c : Node)
    (cs : List Node) : tourActsBelow n above i (c :: cs) =
      tourActs (⟨n, i⟩ :: above) c ++ tourActsBelow n above (i + 1) cs := by
  unfold tourActsBelow tourActs
  rw [tourBelow_cons, List.flatMap_append]

theorem tourActsBelow_append (n : Node) (above : List Ancestor) (i : Nat) (cs ds : List Node) :
    tourActsBelow n above i (cs ++ ds) =
      tourActsBelow n above i cs ++ tourActsBelow n above (i + cs.length) ds := by
  unfold tourActsBelow
  rw [tourBelow_append, List.flatMap_append]

/-! ### Plain nodes -/

theorem tourActsBelow_eq_nil {n : Node} {above : List Ancestor} {cs : List Node} {i : Nat}
    (h : ∀ c ∈ cs, ∀ above, tourActs above c = []) : tourActsBelow n above i cs = [] := by
  induction cs generalizing i with
  | nil => exact tourActsBelow_nil n above i
  | cons c cs ih =>
      rw [tourActsBelow_cons, h c List.mem_cons_self,
        ih fun d hd => h d (List.mem_cons_of_mem c hd)]
      rfl

theorem tourActs_plain (c : Node) (h : isPlain c = true) (above : List Ancestor) :
    tourActs above c = [] := by
  rw [isPlain_eq, Bool.and_eq_true, arePlain_iff] at h
  have hbelow : tourActsBelow c above 0 c.children = [] :=
    tourActsBelow_eq_nil fun d hd above' =>
      have := Tree.size_lt_of_mem hd
      tourActs_plain d (h.2 d hd) above'
  rw [tourActs_eq, hbelow]
  have hk := h.1
  unfold Site.enterActs Site.leaveActs Site.registration?
  cases hc : c.kind <;> simp_all [Kind.isPlain, Kind.construct?]
termination_by c.size

theorem tourActsBelow_plain {n : Node} {above : List Ancestor} {cs : List Node} {i : Nat}
    (h : ∀ c ∈ cs, isPlain c = true) : tourActsBelow n above i cs = [] :=
  tourActsBelow_eq_nil fun c hc above' => tourActs_plain c (h c hc) above'

theorem tourActsBelow_filler {n : Node} {above : List Ancestor} {cs : List Node} {i : Nat}
    (h : ∀ c ∈ cs, isFiller c = true) : tourActsBelow n above i cs = [] :=
  tourActsBelow_plain fun c hc => isPlain_of_isFiller (h c hc)

/-! ### States that fit a site -/

/-- The state of the walk as it is to be where the ancestors are `above`. -/
structure Fits (above : List Ancestor) (w : Walker) : Prop where
  depth : w.depth = levelBelow above
  inCondition : w.inCondition = conditionsAround above
  methods : w.methods.isEmpty = (innermostOf? .functionDefinition above).isNone

/-- The state of the walk as it is to be between the children of a node. -/
structure FitsBelow (n : Node) (above : List Ancestor) (w : Walker) : Prop where
  depth : w.depth = levelBelow above + ownLevel n.kind
  inCondition : w.inCondition = conditionsAround above
  methods : w.methods.isEmpty = (innermostOf? .functionDefinition (⟨n, 0⟩ :: above)).isNone

theorem isEmpty_of_names {ss ss' : List Scope} (h : names ss' = names ss) :
    ss'.isEmpty = ss.isEmpty := by
  have := congrArg List.length h
  simp only [names, List.length_map] at this
  cases ss <;> cases ss' <;> simp_all

theorem Fits.keeps {above : List Ancestor} {w w' : Walker} (h : Fits above w) (hk : Keeps w w') :
    Fits above w' :=
  ⟨hk.depth.trans h.depth, hk.inCondition.trans h.inCondition,
    (isEmpty_of_names hk.methods).trans h.methods⟩

theorem FitsBelow.keeps {n : Node} {above : List Ancestor} {w w' : Walker}
    (h : FitsBelow n above w) (hk : Keeps w w') : FitsBelow n above w' :=
  ⟨hk.depth.trans h.depth, hk.inCondition.trans h.inCondition,
    (isEmpty_of_names hk.methods).trans h.methods⟩

theorem levelBelow_cons (n : Node) (i : Nat) (above : List Ancestor) :
    levelBelow (⟨n, i⟩ :: above) = ownLevel n.kind + clauseLevel n i + levelBelow above := by
  simp [levelBelow, Ancestor.levels]

theorem conditionsAround_cons (a : Ancestor) (above : List Ancestor) :
    conditionsAround (a :: above) = conditionsAround above + if a.isCondition then 1 else 0 := by
  simp [conditionsAround, List.countP_cons]

/-- A node that is no method and adds no level leaves the state as it is. -/
theorem Fits.below {n : Node} {above : List Ancestor} {w : Walker} (h : Fits above w)
    (hl : ownLevel n.kind = 0) (hf : n.kind ≠ .functionDefinition) : FitsBelow n above w := by
  refine ⟨?_, h.inCondition, ?_⟩
  · rw [h.depth, hl]
    rfl
  · rw [innermostOf?, if_neg hf]
    exact h.methods

/-- A child that is not the scored condition and not a clause. -/
theorem FitsBelow.child {n : Node} {above : List Ancestor} {w : Walker} {i : Nat}
    (h : FitsBelow n above w) (hl : clauseLevel n i = 0) (hc : conditionIndex? n ≠ some i) :
    Fits (⟨n, i⟩ :: above) w := by
  refine ⟨?_, ?_, h.methods⟩
  · rw [h.depth, levelBelow_cons, hl]
    omega
  · rw [h.inCondition, conditionsAround_cons]
    simp [Ancestor.isCondition, hc]

/-- The scored condition. -/
theorem FitsBelow.condition {n : Node} {above : List Ancestor} {w : Walker} {i : Nat}
    (h : FitsBelow n above w) (hl : clauseLevel n i = 0) (hc : conditionIndex? n = some i) :
    Fits (⟨n, i⟩ :: above) { w with inCondition := w.inCondition + 1 } := by
  refine ⟨?_, ?_, h.methods⟩
  · show w.depth = _
    rw [h.depth, levelBelow_cons, hl]
    omega
  · show w.inCondition + 1 = _
    rw [h.inCondition, conditionsAround_cons]
    simp [Ancestor.isCondition, hc]

theorem clauseLevel_eq_zero {n : Node} (h : n.kind ≠ .ifStatement) (i : Nat) :
    clauseLevel n i = 0 := by
  unfold clauseLevel
  split <;> simp_all

/-- Entering a method. -/
theorem Fits.openMethod {n : Node} {above : List Ancestor} {w : Walker} (h : Fits above w)
    (hn : n.kind = .functionDefinition) : FitsBelow n above (w.openMethod (nameOf n)) := by
  refine ⟨?_, h.inCondition, ?_⟩
  · rw [hn]
    exact h.depth
  · rw [innermostOf?, if_pos hn]
    rfl

theorem fits_initial : Fits [] .initial := ⟨rfl, rfl, rfl⟩

/-! ### One node -/

/-- What a visit does to the scores is what entering the site does. -/
theorem visitAct?_toList {n : Node} {above : List Ancestor} {w : Walker} (hw : Fits above w)
    (he : isElif n = false) : (visitAct? w n).toList = Site.enterActs ⟨n, above⟩ := by
  have hcond := condition?_eq n
  unfold visitAct? Site.enterActs Site.registration? Site.level Site.innermost? body?
  cases hk : n.kind
  case elifClause => simp [isElif, hk] at he
  case booleanOperator =>
    have hfree := isFree_iff ⟨n, above⟩
    by_cases h : w.inCondition = 0
    · have hf : Site.isFree ⟨n, above⟩ = true := hfree.mpr (hw.inCondition ▸ h)
      simp [h, hf, hw.methods]
    · have hf : ¬ Site.isFree ⟨n, above⟩ = true := fun hf =>
        h (hw.inCondition.trans (hfree.mp hf))
      simp [h, hf]
  all_goals
    rw [hk] at hcond
    simp only [Kind.construct?, ownLevel, hcond, hw.depth]
    rfl

/-- The tasks that take back what the visit to a node has opened. -/
def closing : Kind → List Task
  | .functionDefinition => [.closeMethod]
  | .classDefinition => [.closeClass]
  | .whileStatement | .forStatement => [.ascend]
  | _ => []

theorem visit_tasks {n : Node} (h : n.kind ≠ .ifStatement) (he : isElif n = false) (w : Walker) :
    (visit w n).2 = marked (conditionIndex? n) n.children ++ closing n.kind := by
  unfold visit conditionIndex?
  cases hk : n.kind
  case ifStatement => exact absurd hk h
  case elifClause => simp [isElif, hk] at he
  case whileStatement => simp only [visitsIn_eq_marked]; rfl
  case conditionalExpression => simp only [visitsNamed_eq_marked, closing, List.append_nil]
  all_goals simp only [visits_eq_marked, closing, List.append_nil]

theorem acts_closing (n : Node) (above : List Ancestor) (w : Walker) :
    acts (closing n.kind) w = Site.leaveActs ⟨n, above⟩ := by
  unfold closing Site.leaveActs
  cases n.kind
  case functionDefinition => simp [acts_singleton, act?, step]
  case classDefinition => simp [acts_singleton, act?, step]
  case whileStatement => simp [acts_singleton, act?, step]
  case forStatement => simp [acts_singleton, act?, step]
  all_goals exact acts_nil w

theorem visit_state {n : Node} (hf : n.kind ≠ .functionDefinition) (w : Walker) :
    (visit w n).1.depth = w.depth + ownLevel n.kind ∧
      (visit w n).1.inCondition = w.inCondition ∧
      names (visit w n).1.methods = names w.methods := by
  unfold visit
  cases hk : n.kind
  case functionDefinition => exact absurd hk hf
  case booleanOperator =>
    have hkeeps := keeps_operator w
    exact ⟨hkeeps.depth, hkeeps.inCondition, hkeeps.methods⟩
  case ifStatement => exact ⟨rfl, rfl, names_charge _ _⟩
  case whileStatement => exact ⟨rfl, rfl, names_charge _ _⟩
  case forStatement => exact ⟨rfl, rfl, names_charge _ _⟩
  case tryStatement => exact ⟨rfl, rfl, names_charge _ _⟩
  case conditionalExpression => exact ⟨rfl, rfl, names_charge _ _⟩
  all_goals exact ⟨rfl, rfl, rfl⟩

/-- The state between the children of a node, right after the visit to the node itself. -/
theorem Fits.visit {n : Node} {above : List Ancestor} {w : Walker} (hw : Fits above w) :
    FitsBelow n above (Walk.visit w n).1 := by
  by_cases hf : n.kind = .functionDefinition
  · have hv : (Walk.visit w n).1 = w.openMethod (nameOf n) := by rw [Walk.visit, hf]; rfl
    rw [hv]
    exact hw.openMethod hf
  · obtain ⟨hd, hc, hm⟩ := visit_state hf w
    refine ⟨by rw [hd, hw.depth], hc.trans hw.inCondition, ?_⟩
    rw [isEmpty_of_names hm, innermostOf?, if_neg hf]
    exact hw.methods

/-! ### The children of a node -/

theorem keeps_run_visit (c : Node) (w : Walker) : Keeps w (run [.visit c] w) := by
  obtain ⟨hdoes, hkeeps⟩ := agrees c w
  rw [hdoes.run]
  exact hkeeps

theorem keeps_run_condition (c : Node) (w : Walker) : Keeps w (run [.condition c] w) := by
  obtain ⟨hdoes, hkeeps⟩ := (agrees c).condition w
  rw [hdoes.run]
  exact hkeeps

theorem acts_condition (c : Node) (w : Walker) :
    acts [.condition c] w = acts [.visit c] { w with inCondition := w.inCondition + 1 } := by
  have hend : ∀ v, acts [.endCondition] v = [] := fun v => by
    simp [acts_singleton, act?, step]
  rw [acts_singleton]
  show acts ([.visit c] ++ [.endCondition]) _ = _
  rw [acts_append, hend, List.append_nil]
  rfl

/-- The walk does at a node what the tour does there, in every state that fits. -/
def Follows (above : List Ancestor) (n : Node) : Prop :=
  ∀ w, Fits above w → acts [.visit n] w = tourActs above n

/-- Visits to children from number `j` on, none of which is a clause of an `if` statement. -/
theorem acts_marked {n : Node} {above : List Ancestor} {cs : List Node} {i : Option Nat} {j : Nat}
    {w : Walker} (h : ∀ c ∈ cs, ∀ k, Follows (⟨n, k⟩ :: above) c)
    (hl : ∀ k, clauseLevel n k = 0) (hi : ∀ k, conditionIndex? n = some (j + k) ↔ i = some k)
    (hw : FitsBelow n above w) : acts (marked i cs) w = tourActsBelow n above j cs := by
  induction cs generalizing i j w with
  | nil => cases i <;> exact acts_nil w
  | cons c cs ih =>
      have hc := h c List.mem_cons_self j
      have hcs := fun d hd => h d (List.mem_cons_of_mem c hd)
      have hvisit : conditionIndex? n ≠ some j → acts [.visit c] w = tourActs (⟨n, j⟩ :: above) c :=
        fun hj => hc w (hw.child (hl j) hj)
      have hshift : ∀ k, conditionIndex? n = some (j + 1 + k) ↔ i = some (k + 1) := by
        intro k
        rw [Nat.add_assoc, Nat.add_comm 1 k]
        exact hi (k + 1)
      have hnext := hw.keeps (keeps_run_visit c w)
      rw [tourActsBelow_cons]
      match i with
      | none =>
          have hj : conditionIndex? n ≠ some j := fun hj => by simpa using (hi 0).mp hj
          have hrest := ih (i := none) (j := j + 1) hcs
            (fun k => by simpa using hshift k) hnext
          show acts ([.visit c] ++ marked none cs) w = _
          rw [acts_append, hvisit hj, hrest]
      | some 0 =>
          have hj : conditionIndex? n = some j := (hi 0).mpr rfl
          have hrest := ih (i := none) (j := j + 1) hcs
            (fun k => by simpa using hshift k)
            (hw.keeps (keeps_run_condition c w))
          show acts ([.condition c] ++ marked none cs) w = _
          rw [acts_append, acts_condition, hc _ (hw.condition (hl j) hj), hrest]
      | some (i + 1) =>
          have hj : conditionIndex? n ≠ some j := fun hj => by simpa using (hi 0).mp hj
          have hrest := ih (i := some i) (j := j + 1) hcs
            (fun k => by simpa using hshift k) hnext
          show acts ([.visit c] ++ marked (some i) cs) w = _
          rw [acts_append, hvisit hj, hrest]

/-! ### The parts of an `if` statement -/

theorem clauseLevel_of_getElem? {n c : Node} {i : Nat} (hi : n.children[i]? = some c)
    (hc : c.kind.isClause = false) : clauseLevel n i = 0 := by
  unfold clauseLevel
  rw [hi]
  cases hk : c.kind <;> simp_all [Kind.isClause]

namespace Branch

variable (b : Branch) {n : Node}

theorem getElem?_condition (hn : n.children = b.nodes) :
    n.children[b.before.length]? = some b.condition := by
  rw [hn, nodes, List.getElem?_append_right (Nat.le_refl _), Nat.sub_self]
  rfl

theorem getElem?_consequence (hn : n.children = b.nodes) :
    n.children[b.consequenceIndex]? = some b.consequence := by
  have hnodes : b.nodes =
      (b.before ++ b.condition :: b.between) ++ b.consequence :: b.after := by simp [nodes]
  have hlength : (b.before ++ b.condition :: b.between).length = b.consequenceIndex := by
    simp [consequenceIndex]
    omega
  rw [hn, hnodes, List.getElem?_append_right (by omega), hlength, Nat.sub_self]
  rfl

/-- The tour of the children of an `if` or `elif`. -/
theorem tourActsBelow_eq (hn : n.children = b.nodes) (above : List Ancestor) :
    tourActsBelow n above 0 n.children =
      tourActs (⟨n, b.before.length⟩ :: above) b.condition ++
        (tourActs (⟨n, b.consequenceIndex⟩ :: above) b.consequence ++
          tourActsBelow n above (b.consequenceIndex + 1) b.after) := by
  rw [hn, nodes, tourActsBelow_append, tourActsBelow_filler b.before_filler, tourActsBelow_cons,
    tourActsBelow_append, tourActsBelow_filler b.between_filler, tourActsBelow_cons]
  simp only [List.nil_append, Nat.zero_add, consequenceIndex]

/-- The walk of the condition and the consequence. -/
theorem acts_branchTasks (hn : n.children = b.nodes) {above : List Ancestor} {w : Walker}
    (hi : conditionIndex? n = some b.before.length)
    (hcond : Follows (⟨n, b.before.length⟩ :: above) b.condition)
    (hcons : Follows (⟨n, b.consequenceIndex⟩ :: above) b.consequence)
    (hw : FitsBelow n above w) :
    acts (branchTasks n) w = tourActs (⟨n, b.before.length⟩ :: above) b.condition ++
      tourActs (⟨n, b.consequenceIndex⟩ :: above) b.consequence := by
  have hne : conditionIndex? n ≠ some b.consequenceIndex := by
    rw [hi, consequenceIndex]
    simp
    omega
  have hlcond := clauseLevel_of_getElem? (b.getElem?_condition hn) b.condition_kind
  have hlcons := clauseLevel_of_getElem? (b.getElem?_consequence hn) b.consequence_kind
  rw [b.branchTasks_eq hn]
  show acts ([.condition b.condition] ++ [.visit b.consequence]) w = _
  rw [acts_append, acts_condition, hcond _ (hw.condition hlcond hi),
    hcons _ ((hw.keeps (keeps_run_condition _ w)).child hlcons hne)]

end Branch

/-- The state of the walk between the clauses of an `if` statement, `k` of its `elif` clauses
behind. -/
structure FitsClauses (above : List Ancestor) (k : Nat) (w : Walker) : Prop where
  depth : w.depth = levelBelow above + 1 + k
  inCondition : w.inCondition = conditionsAround above
  methods : w.methods.isEmpty = (innermostOf? .functionDefinition above).isNone

theorem FitsClauses.keeps {above : List Ancestor} {k e : Nat} {w w' : Walker}
    (h : FitsClauses above k w) (hk : Keeps (w.atDepth (w.depth + e)) w') :
    FitsClauses above (k + e) w' := by
  refine ⟨?_, hk.inCondition.trans h.inCondition, (isEmpty_of_names hk.methods).trans h.methods⟩
  have hd : w'.depth = w.depth + e := hk.depth
  rw [hd, h.depth]
  omega

/-- The state at a clause that stands `k` levels below the consequence. -/
theorem FitsClauses.fits {n : Node} {above : List Ancestor} {k i : Nat} {w : Walker}
    (h : FitsClauses above k w) (hn : n.kind = .ifStatement) (hl : clauseLevel n i = k)
    (hc : conditionIndex? n ≠ some i) : Fits (⟨n, i⟩ :: above) w := by
  refine ⟨?_, ?_, ?_⟩
  · rw [h.depth, levelBelow_cons, hl, hn]
    simp only [ownLevel]
    omega
  · rw [h.inCondition, conditionsAround_cons]
    simp [Ancestor.isCondition, hc]
  · rw [innermostOf?, if_neg (by simp [hn])]
    exact h.methods

theorem acts_elif {n c : Node} {above : List Ancestor} {k i : Nat} {w : Walker}
    (hn : n.kind = .ifStatement) (hl : clauseLevel n i = k + 1) (hi : conditionIndex? n ≠ some i)
    (hc : c.kind = .elifClause) (hs : isShaped c = true)
    (h : ∀ d ∈ c.children, Shaped d → ∀ above, Follows above d) (hw : FitsClauses above k w) :
    acts [.elif c] w = tourActs (⟨n, i⟩ :: above) c := by
  have hbranch : isBranch arePlain c.children = true := by
    rw [isShaped_eq, Bool.and_eq_true, hc] at hs
    exact hs.1
  obtain ⟨b, hb, hafter⟩ := exists_branch hbranch
  have hindex : conditionIndex? c = some b.before.length := by
    rw [conditionIndex?, hc]
    exact b.childIndex?_condition hb.symm
  have hcond := shaped_of_isClause_eq_false hs (b.mem_condition hb.symm) b.condition_kind
  have hcons := shaped_of_isClause_eq_false hs (b.mem_consequence hb.symm) b.consequence_kind
  -- one level deeper the state fits the clause, and so it fits what is below the clause
  have hfits : Fits (⟨n, i⟩ :: above) w.descend :=
    (hw.keeps (e := 1) (Keeps.refl _)).fits hn hl hi
  have hscored : Fits (⟨n, i⟩ :: above) (scoreBranch w.descend c) :=
    hfits.keeps (keeps_register w.descend .ifBranch c (c.child? .condition)
      (c.child? .consequence))
  have hbelow : FitsBelow c (⟨n, i⟩ :: above) (scoreBranch w.descend c) :=
    hscored.below (by rw [hc]; rfl) (by simp [hc])
  have henter : Site.enterActs ⟨c, ⟨n, i⟩ :: above⟩ = [.score ⟨.ifBranch, c, w.depth + 1,
      c.child? .condition, c.child? .consequence⟩] := by
    have hlevel : Site.level ⟨c, ⟨n, i⟩ :: above⟩ = w.depth + 1 := by
      rw [Site.level, ← hfits.depth, hc]
      rfl
    have hcondition := condition?_eq c
    rw [hc] at hcondition
    simp [Site.enterActs, Site.registration?, body?, hc, Kind.construct?, hlevel, hcondition]
  rw [acts_singleton, tourActs_eq, b.tourActsBelow_eq hb.symm, henter,
    tourActsBelow_plain ((arePlain_iff _).mp hafter)]
  have hacts := b.acts_branchTasks hb.symm hindex
    (h _ (b.mem_condition hb.symm) hcond _) (h _ (b.mem_consequence hb.symm) hcons _) hbelow
  simp only [act?, step, hacts, Option.toList_some, Site.leaveActs, hc, List.append_nil]

theorem acts_else {n c : Node} {above : List Ancestor} {k i : Nat} {w : Walker}
    (hn : n.kind = .ifStatement) (hl : clauseLevel n i = k) (hi : conditionIndex? n ≠ some i)
    (hc : c.kind = .elseClause) (hs : isShaped c = true)
    (h : ∀ d ∈ c.children, Shaped d → ∀ above, Follows above d) (hw : FitsClauses above k w) :
    acts (visits c.children) w = tourActs (⟨n, i⟩ :: above) c := by
  have hfits : Fits (⟨n, i⟩ :: above) w := hw.fits hn hl hi
  have hbelow : FitsBelow c (⟨n, i⟩ :: above) w :=
    hfits.below (by rw [hc]; rfl) (by simp [hc])
  have hcs : ∀ d ∈ c.children, ∀ j, Follows (⟨c, j⟩ :: ⟨n, i⟩ :: above) d := fun d hd j =>
    h d hd (shaped_of_mem hs (by simp [hc]) (by simp [hc]) hd) _
  have hnone : conditionIndex? c = none := by rw [conditionIndex?, hc]
  have hacts := acts_marked (i := none) (j := 0) hcs (clauseLevel_eq_zero (by simp [hc]))
    (fun j => by simp [hnone]) hbelow
  rw [visits_eq_marked, hacts, tourActs_eq]
  simp [Site.enterActs, Site.leaveActs, Site.registration?, hc, Kind.construct?]

theorem clauseLevel_elif {n c : Node} {pre cs : List Node} (hn : n.kind = .ifStatement)
    (hcs : n.children = pre ++ c :: cs) (hc : c.kind = .elifClause) :
    clauseLevel n pre.length = pre.countP isElif + 1 := by
  have htake : n.children.take (pre.length + 1) = pre ++ [c] := by
    rw [hcs, List.take_append]
    simp
  unfold clauseLevel
  rw [htake, hcs, hn]
  simp [hc, List.countP_append, isElif]

theorem clauseLevel_else {n c : Node} {pre cs : List Node} (hn : n.kind = .ifStatement)
    (hcs : n.children = pre ++ c :: cs) (hc : c.kind = .elseClause)
    (hplain : ∀ d ∈ cs, isPlain d = true) : clauseLevel n pre.length = pre.countP isElif := by
  have hzero : cs.countP isElif = 0 := List.countP_eq_zero.mpr fun d hd => by
    simp [isElif_eq_false_of_isPlain (hplain d hd)]
  have hfirst : isElif c = false := by simp [isElif, hc]
  unfold clauseLevel
  rw [hcs, hn]
  simp [hc, List.countP_append, hzero, hfirst]

theorem alternativeTasks_plain {c : Node} (h : isPlain c = true) : alternativeTasks c = [] := by
  rw [isPlain_eq, Bool.and_eq_true] at h
  have hk := h.1
  unfold alternativeTasks
  cases hc : c.kind <;> simp_all [Kind.isPlain]

/-- The state after a clause. -/
theorem FitsClauses.run {above : List Ancestor} {k : Nat} {w : Walker} (h : FitsClauses above k w)
    (c : Node) : FitsClauses above (k + if isElif c then 1 else 0)
      (Walk.run (alternativeTasks c) w) := by
  obtain ⟨hdoes, hkeeps⟩ := agrees_clause (fun d _ => agrees d) w (c := c)
  rw [hdoes.run]
  exact h.keeps hkeeps

/-- The clauses of an `if` statement, after the children `pre`. -/
theorem acts_clauses {n : Node} {above : List Ancestor} {pre cs : List Node} {w : Walker}
    (hn : n.kind = .ifStatement) (hcs : n.children = pre ++ cs) (hc : areClauses cs = true)
    (hs : isShaped n = true) (hi : ∀ i, pre.length ≤ i → conditionIndex? n ≠ some i)
    (h : ∀ c ∈ n.children, ∀ d ∈ c.children, Shaped d → ∀ above, Follows above d)
    (hw : FitsClauses above (pre.countP isElif) w) :
    acts (cs.flatMap alternativeTasks) w = tourActsBelow n above pre.length cs := by
  induction cs generalizing pre w with
  | nil => rw [List.flatMap_nil, acts_nil, tourActsBelow_nil]
  | cons c cs ih =>
      have hmem : c ∈ n.children := by rw [hcs]; simp
      have hsc := isShaped_of_mem hs hmem
      have hip := hi pre.length (Nat.le_refl _)
      have hrest : areClauses cs = true → acts (cs.flatMap alternativeTasks)
          (run (alternativeTasks c) w) = tourActsBelow n above (pre.length + 1) cs := by
        intro hc'
        have hnext := hw.run c
        have hcount : pre.countP isElif + (if isElif c then 1 else 0) =
            (pre ++ [c]).countP isElif := by
          rw [List.countP_append, List.countP_singleton]
        rw [hcount] at hnext
        have hlength : (pre ++ [c]).length = pre.length + 1 := by simp
        rw [← hlength]
        exact ih (by rw [hcs]; simp) hc' (fun i hle => hi i (by omega)) hnext
      rw [List.flatMap_cons, acts_append, tourActsBelow_cons]
      by_cases helif : c.kind = .elifClause
      · have hc' : areClauses cs = true := by simpa only [areClauses, helif] using hc
        rw [hrest hc', alternativeTasks, helif]
        rw [acts_elif hn (clauseLevel_elif hn hcs helif) hip helif hsc (h c hmem) hw]
      · by_cases helse : c.kind = .elseClause
        · have hplain : ∀ d ∈ cs, isPlain d = true :=
            (arePlain_iff cs).mp (by simpa only [areClauses, helse] using hc)
          have hnil : cs.flatMap alternativeTasks = [] :=
            List.flatMap_eq_nil_iff.mpr fun d hd => alternativeTasks_plain (hplain d hd)
          rw [hnil, acts_nil, tourActsBelow_plain hplain, alternativeTasks, helse]
          rw [acts_else hn (clauseLevel_else hn hcs helse hplain) hip helse hsc (h c hmem) hw]
        · have hboth : isPlain c = true ∧ areClauses cs = true := by
            rw [areClauses] at hc
            split at hc
            · contradiction
            · contradiction
            · exact Bool.and_eq_true _ _ ▸ hc
          rw [hrest hboth.2, alternativeTasks_plain hboth.1, acts_nil,
            tourActs_plain c hboth.1]

theorem acts_ascends (k : Nat) (w : Walker) : acts (List.replicate k .ascend) w = [] := by
  induction k generalizing w with
  | zero => exact acts_nil w
  | succ k ih =>
      rw [List.replicate_succ, acts_cons]
      exact ih _

theorem alternativeTasks_of_isClause_eq_false {c : Node} (h : c.kind.isClause = false) :
    alternativeTasks c = [] := by
  unfold alternativeTasks
  cases hc : c.kind <;> simp_all [Kind.isClause]

/-- Only the nodes after the consequence are clauses. -/
theorem Branch.flatMap_alternativeTasks (b : Branch) :
    b.nodes.flatMap alternativeTasks = b.after.flatMap alternativeTasks := by
  have hfiller : ∀ cs : List Node, (∀ c ∈ cs, isFiller c = true) →
      cs.flatMap alternativeTasks = [] := fun cs h => List.flatMap_eq_nil_iff.mpr fun c hc =>
    alternativeTasks_plain (isPlain_of_isFiller (h c hc))
  rw [Branch.nodes, List.flatMap_append, List.flatMap_cons, List.flatMap_append,
    List.flatMap_cons, hfiller _ b.before_filler, hfiller _ b.between_filler,
    alternativeTasks_of_isClause_eq_false b.condition_kind,
    alternativeTasks_of_isClause_eq_false b.consequence_kind]
  rfl

/-- The children up to the consequence are no `elif` clauses. -/
theorem Branch.countP_isElif (b : Branch) :
    (b.before ++ b.condition :: (b.between ++ [b.consequence])).countP isElif = 0 := by
  have hfiller : ∀ c, isFiller c = true → isElif c = false := fun c h =>
    isElif_eq_false_of_isPlain (isPlain_of_isFiller h)
  have hclause : ∀ c : Node, c.kind.isClause = false → isElif c = false := fun c h =>
    (Bool.or_eq_false_iff.mp h).1
  refine List.countP_eq_zero.mpr fun c hc => ?_
  simp only [List.mem_append, List.mem_cons, List.not_mem_nil, or_false] at hc
  rcases hc with hc | rfl | hc | rfl
  · simp [hfiller c (b.before_filler c hc)]
  · simp [hclause _ b.condition_kind]
  · simp [hfiller c (b.between_filler c hc)]
  · simp [hclause _ b.consequence_kind]

/-- Between the consequence and the first clause no `elif` clause has been met. -/
theorem FitsBelow.clauses {n : Node} {above : List Ancestor} {w : Walker}
    (hn : n.kind = .ifStatement) (hw : FitsBelow n above w) :
    FitsClauses above 0 (Walk.run (branchTasks n) w) := by
  obtain ⟨hdoes, hkeeps⟩ := agrees_branch (fun c _ => agrees c) w (n := n)
  have hfits := hw.keeps hkeeps
  rw [hdoes.run]
  refine ⟨by rw [hfits.depth, hn]; rfl, hfits.inCondition, ?_⟩
  rw [hfits.methods, innermostOf?, if_neg (by simp [hn])]

theorem Branch.acts_clauses (b : Branch) {n : Node} {above : List Ancestor} {w : Walker}
    (hn : n.kind = .ifStatement) (hb : n.children = b.nodes) (hs : isShaped n = true)
    (hafter : areClauses b.after = true) (hindex : conditionIndex? n = some b.before.length)
    (h : ∀ c ∈ n.children, ∀ d ∈ c.children, Shaped d → ∀ above, Follows above d)
    (hw : FitsClauses above 0 w) : acts (b.after.flatMap alternativeTasks) w =
      tourActsBelow n above (b.consequenceIndex + 1) b.after := by
  have hlength : (b.before ++ b.condition :: (b.between ++ [b.consequence])).length =
      b.consequenceIndex + 1 := by
    simp [Branch.consequenceIndex]
    omega
  rw [← hlength]
  refine Python.acts_clauses hn (by rw [hb]; simp [Branch.nodes]) hafter hs ?_ h ?_
  · intro i hi
    rw [hlength, Branch.consequenceIndex] at hi
    rw [hindex]
    simp
    omega
  · rw [b.countP_isElif]
    exact hw

theorem follows_if {n : Node} (hn : n.kind = .ifStatement) (hs : isShaped n = true)
    (h : ∀ c ∈ n.children, Shaped c → ∀ above, Follows above c)
    (h' : ∀ c ∈ n.children, ∀ d ∈ c.children, Shaped d → ∀ above, Follows above d)
    (above : List Ancestor) : Follows above n := by
  intro w hw
  have hbranch : isBranch areClauses n.children = true := by
    rw [isShaped_eq, Bool.and_eq_true, hn] at hs
    exact hs.1
  obtain ⟨b, hb, hafter⟩ := exists_branch hbranch
  have hindex : conditionIndex? n = some b.before.length := by
    rw [conditionIndex?, hn]
    exact b.childIndex?_condition hb.symm
  have hcond := shaped_of_isClause_eq_false hs (b.mem_condition hb.symm) b.condition_kind
  have hcons := shaped_of_isClause_eq_false hs (b.mem_consequence hb.symm) b.consequence_kind
  have hbelow : FitsBelow n above (visit w n).1 := hw.visit
  have hbranchActs := b.acts_branchTasks hb.symm hindex
    (h _ (b.mem_condition hb.symm) hcond _) (h _ (b.mem_consequence hb.symm) hcons _) hbelow
  have hclauseActs := b.acts_clauses hn hb.symm hs hafter hindex h' (hbelow.clauses hn)
  have htasks : (visit w n).2 = branchTasks n ++ b.after.flatMap alternativeTasks ++
      List.replicate (levelsOf n) .ascend := by
    rw [visit, hn, ← b.flatMap_alternativeTasks, hb]
  have hacts : acts [.visit n] w = (visitAct? w n).toList ++ acts (visit w n).2 (visit w n).1 :=
    acts_singleton _ w
  have hleave : Site.leaveActs ⟨n, above⟩ = [] := by simp [Site.leaveActs, hn]
  rw [hacts, htasks, acts_append, acts_append, acts_ascends, hbranchActs, hclauseActs,
    tourActs_eq above n, hleave, visitAct?_toList hw (by simp [isElif, hn]),
    b.tourActsBelow_eq hb.symm]
  simp only [List.append_nil, List.append_assoc]

/-! ### All nodes -/

/-- **The walk of a shaped tree follows its tour**: it does the acts of the sites in document
order, whatever encloses the tree. -/
theorem acts_visit {n : Node} (h : Shaped n) (above : List Ancestor) : Follows above n := by
  have ih : ∀ c ∈ n.children, Shaped c → ∀ above, Follows above c := fun c hc hs above =>
    have := Tree.size_lt_of_mem hc
    acts_visit hs above
  by_cases hif : n.kind = .ifStatement
  · refine follows_if hif h.2 ih (fun c hc d hd hs above => ?_) above
    have := Tree.size_lt_of_mem hc
    have := Tree.size_lt_of_mem hd
    exact acts_visit hs above
  · intro w hw
    have helif : n.kind ≠ .elifClause := by
      have := h.1
      simpa [isElif] using this
    have hcs : ∀ c ∈ n.children, ∀ i, Follows (⟨n, i⟩ :: above) c := fun c hc i =>
      ih c hc (shaped_of_mem h.2 hif helif hc) _
    have hchildren := acts_marked (j := 0) hcs (clauseLevel_eq_zero hif)
      (fun i => by rw [Nat.zero_add]) hw.visit
    have hacts : acts [.visit n] w =
        (visitAct? w n).toList ++ acts (visit w n).2 (visit w n).1 := acts_singleton _ w
    rw [hacts, visit_tasks hif h.1, acts_append, hchildren, acts_closing n above,
      visitAct?_toList hw h.1, tourActs_eq]
termination_by n.size

/-- What the walk of a whole tree does to the scores. -/
theorem acts_root {t : Node} (h : Shaped t) :
    acts [.visit t] .initial = (tour t).flatMap Visit.acts :=
  acts_visit h [] .initial fits_initial

end DecisionScore.Python
