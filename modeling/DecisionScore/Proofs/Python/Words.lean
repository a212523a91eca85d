import DecisionScore.Proofs.Words
import DecisionScore.Proofs.Python.Budget
import DecisionScore.Proofs.Python.Sound

/-! # Walks with machine words

The walk once more, as a program on a `Machine`.  Levels, tasks and names are those of the walk; the
acts of its tasks are done on the machine.  As long as the totals fit, what the machine has is the
image of the exact state (`performOn_eq`, `runOn_eq`), and no act makes the totals smaller.  So a
walk comes to its breakdown as far as the totals at its end fit (`onWords_breakdown`), and a tree of
up to `2 ^ 19` nodes is scored exactly (`exact_of_size_le`). -/

namespace DecisionScore

/-! ### Counts -/

namespace TokenWeight

/-- Holds every count. -/
def holdCounts (hold : Machine) (w : TokenWeight) : Option TokenWeight := do
  let conds ← hold w.conds
  let ops ← hold w.ops
  let operands ← hold w.operands
  return ⟨conds, ops, operands⟩

/-- Whether every count fits. -/
def countsFit (fits : Nat → Bool) (w : TokenWeight) : Bool :=
  fits w.conds && fits w.ops && fits w.operands

section
variable {hold : Machine} {image : Nat → Nat} {fits : Nat → Bool} {v w : TokenWeight}

theorem countsFit_iff : w.countsFit fits = true ↔
    fits w.conds = true ∧ fits w.ops = true ∧ fits w.operands = true := by
  rw [countsFit, Bool.and_eq_true, Bool.and_eq_true, and_assoc]

variable (h : hold.Computes image fits)
include h

theorem holdCounts_add (v w : TokenWeight) : (v.mapCounts image + w).holdCounts hold =
    if (v + w).countsFit fits = true then some ((v + w).mapCounts image) else none := by
  show (hold (image v.conds + w.conds)).bind (fun conds => (hold (image v.ops + w.ops)).bind
    fun ops => (hold (image v.operands + w.operands)).bind fun operands =>
      some (TokenWeight.mk conds ops operands)) = _
  rw [h.add, h.add, h.add, h.hold_eq, h.hold_eq, h.hold_eq, countsFit]
  simp only [conds_add, ops_add, operands_add]
  cases fits (v.conds + w.conds)
  · rfl
  · cases fits (v.ops + w.ops)
    · rfl
    · cases fits (v.operands + w.operands) <;> rfl

theorem countsFit_left (hfit : (v + w).countsFit fits = true) : v.countsFit fits = true := by
  obtain ⟨hconds, hops, hoperands⟩ := countsFit_iff.mp hfit
  exact countsFit_iff.mpr ⟨h.mono (Nat.le_add_right _ _) hconds,
    h.mono (Nat.le_add_right _ _) hops, h.mono (Nat.le_add_right _ _) hoperands⟩

theorem countsFit_of_total (hfit : fits w.total = true) : w.countsFit fits = true := by
  refine countsFit_iff.mpr ⟨h.mono ?_ hfit, h.mono ?_ hfit, h.mono ?_ hfit⟩
  all_goals
    unfold total
    omega

theorem countsFit_bare : bare.countsFit fits = true :=
  countsFit_iff.mpr ⟨h.one, h.mono (Nat.zero_le 1) h.one, h.mono (Nat.zero_le 1) h.one⟩

end

end TokenWeight

namespace Python

variable (hold : Machine)

/-! ### Conditions -/

namespace Condition

/-- Counts all pending nodes. -/
def weighOn : List Pending → TokenWeight → Option TokenWeight
  | [], w => some w
  | p :: ps, w => do
    let counted ← (own p w).holdCounts hold
    weighOn (opened p ++ ps) counted
termination_by ps => pendingSize ps
decreasing_by exact pendingSize_opened p ps

/-- The weight of a condition. -/
def weightOn (condition : Node) : Option TokenWeight := weighOn hold [⟨false, condition⟩] .bare

section
variable {hold} {image : Nat → Nat} {fits : Nat → Bool} (h : hold.Computes image fits)
include h

/-- **All pending nodes**: the counts only grow. -/
theorem weighOn_eq (ps : List Pending) (w : TokenWeight) (hfit : w.countsFit fits = true) :
    weighOn hold ps (w.mapCounts image) = if (weigh ps w).countsFit fits = true
      then some ((weigh ps w).mapCounts image) else none := by
  induction ps, w using weighInduction with
  | nil w =>
      rw [weighOn, weigh, if_pos hfit]
  | cons p ps w ih =>
      rw [weighOn, weigh_cons, own_eq_add, TokenWeight.holdCounts_add h, ← own_eq_add]
      by_cases hown : (own p w).countsFit fits = true
      · rw [if_pos hown]
        exact ih hown
      · rw [if_neg hown, if_neg]
        · rfl
        · intro hall
          rw [weigh_eq_add] at hall
          exact hown (TokenWeight.countsFit_left h hall)

theorem weightOn_eq (condition : Node) : weightOn hold condition =
    if (weight condition).countsFit fits = true then some ((weight condition).mapCounts image)
    else none := by
  have hall := weighOn_eq h [⟨false, condition⟩] .bare (TokenWeight.countsFit_bare h)
  rw [TokenWeight.mapCounts_bare h] at hall
  exact hall

end

end Condition

namespace Walk

/-! ### Acts -/

namespace Registration

/-- The token weight of the condition. -/
def tokensOn (r : Registration) : Option TokenWeight :=
  match r.condition with
  | none => some .bare
  | some c => Condition.weightOn hold c

/-- What the construct contributes. -/
def dcOn (r : Registration) : Option Nat := do
  let tokens ← r.tokensOn hold
  contributionOn hold r.kind r.depth tokens

/-- Enters the construct with its contribution into a breakdown. -/
def addToOn (r : Registration) (dc : Nat) (b : Breakdown) : Option Breakdown := do
  let scored ← b.scoreOn hold r.line dc
  return Walker.noteAll (scored.record r.kind r.depth) r.kind r.depth r.found

end Registration

/-- Applies a change to the innermost scope. -/
def onInnermostOn (f : Scope → Option Scope) : List Scope → Option (List Scope)
  | [] => some []
  | s :: ss => do
    let changed ← f s
    return changed :: ss

namespace Ledger

/-- Does an act. -/
def performOn (l : Ledger) : Act → Option Ledger
  | .score r => do
    let dc ← r.dcOn hold
    let result ← r.addToOn hold dc l.result
    let methods ← onInnermostOn (·.chargeOn hold dc) l.methods
    let classes ← onInnermostOn (·.chargeOn hold dc) l.classes
    return ⟨methods, classes, result⟩
  | .path true => do
    let result ← l.result.addPathsOn hold 1
    let methods ← onInnermostOn (·.addPathsOn hold 1) l.methods
    return ⟨methods, l.classes, result⟩
  | .path false => do
    let result ← l.result.addPathsOn hold 1
    let classes ← onInnermostOn (·.addPathsOn hold 1) l.classes
    return ⟨l.methods, classes, result⟩
  | a => some (l.perform a)

/-- The image of a ledger. -/
def mapScores (image : Nat → Nat) (l : Ledger) : Ledger :=
  ⟨l.methods.map (Scope.mapScores image), l.classes.map (Scope.mapScores image),
    l.result.mapScores image⟩

theorem dc_le_perform (l : Ledger) (a : Act) : l.result.dc ≤ (l.perform a).result.dc := by
  match a with
  | .score r =>
      rw [perform, r.addTo_eq]
      exact Nat.le_add_right _ _
  | .path true => exact Nat.le_refl _
  | .path false => exact Nat.le_refl _
  | .openMethod name => exact Nat.le_refl _
  | .openClass name => exact Nat.le_refl _
  | .closeMethod => rw [perform]; split <;> exact Nat.le_refl _
  | .closeClass => rw [perform]; split <;> exact Nat.le_refl _

theorem cc_le_perform (l : Ledger) (a : Act) : l.result.cc ≤ (l.perform a).result.cc := by
  have hcc := foldl_perform_cc [a] l
  exact Nat.le.intro hcc.symm

end Ledger

section
variable {hold} {image : Nat → Nat} {fits : Nat → Bool} (h : hold.Computes image fits)

theorem onInnermostOn_eq {f : Scope → Option Scope} {g : Scope → Scope} {ss : List Scope}
    (hf : ∀ s ∈ ss, f (s.mapScores image) = some ((g s).mapScores image)) :
    onInnermostOn f (ss.map (Scope.mapScores image)) =
      some ((Walker.onInnermost g ss).map (Scope.mapScores image)) := by
  cases ss with
  | nil => rfl
  | cons s ss =>
      have hs := hf s List.mem_cons_self
      simp [onInnermostOn, Walker.onInnermost, hs]

include h

theorem Registration.tokensOn_eq (r : Registration) : r.tokensOn hold =
    if r.tokens.countsFit fits = true then some (r.tokens.mapCounts image) else none := by
  obtain ⟨kind, node, depth, condition, body⟩ := r
  cases condition with
  | none =>
      have hbare : some TokenWeight.bare = some (TokenWeight.bare.mapCounts image) :=
        congrArg some (TokenWeight.mapCounts_bare h).symm
      exact hbare.trans (if_pos (TokenWeight.countsFit_bare h)).symm
  | some c => exact Condition.weightOn_eq h c

/-- **One construct**: nothing on the way to its score is greater than the score. -/
theorem Registration.dcOn_eq (r : Registration) :
    r.dcOn hold = if fits r.dc = true then some (image r.dc) else none := by
  have hone : 1 ≤ r.tokens.total := by
    have hconds := r.one_le_conds
    unfold TokenWeight.total
    omega
  unfold dcOn
  rw [tokensOn_eq h]
  by_cases hcounts : r.tokens.countsFit fits = true
  · rw [if_pos hcounts]
    exact contributionOn_eq h r.kind r.depth hone
  · have hdc : ¬ fits r.dc = true := fun hdc =>
      hcounts (TokenWeight.countsFit_of_total h (h.mono (total_le_contribution _ _ _) hdc))
    rw [if_neg hcounts, if_neg hdc]
    rfl

/-- **A construct in a breakdown.** -/
theorem Registration.addToOn_eq (r : Registration) {b : Breakdown}
    (hline : b.lineScore r.line ≤ b.dc) : r.addToOn hold (image r.dc) (b.mapScores image) =
      if (r.addTo b).totalsFit fits = true then some ((r.addTo b).mapScores image) else none := by
  have htotals : (r.addTo b).totalsFit fits = (b.score r.line r.dc).totalsFit fits := by
    rw [r.addTo_eq]
    rfl
  have himage : Walker.noteAll (((b.score r.line r.dc).mapScores image).record r.kind r.depth)
      r.kind r.depth r.found = (r.addTo b).mapScores image := by
    rw [noteAll_eq, addTo, noteAll_eq]
    rfl
  unfold addToOn
  rw [Breakdown.scoreOn_eq h hline, htotals]
  split
  · exact congrArg some himage
  · rfl

namespace Ledger

/-- **A construct in a ledger.** -/
theorem performOn_score {l : Ledger} (hl : l.Sound) (r : Registration) :
    (l.mapScores image).performOn hold (.score r) =
      if (r.addTo l.result).totalsFit fits = true
      then some ((l.perform (.score r)).mapScores image) else none := by
  have hadd : r.addToOn hold (image r.dc) (l.mapScores image).result = _ :=
    r.addToOn_eq h (hl.consistent.lineScore_le r.line)
  rw [performOn, r.dcOn_eq h]
  by_cases hfit : (r.addTo l.result).totalsFit fits = true
  · have htotals : fits (l.result.dc + r.dc) = true ∧ fits (l.result.cc + 1) = true := by
      rw [r.addTo_eq] at hfit
      exact Breakdown.totalsFit_iff.mp hfit
    have hcharge : ∀ s : Scope, s.score.Within l.result →
        (s.mapScores image).chargeOn hold (image r.dc) = some ((s.charge r.dc).mapScores image) :=
      fun s hs => Scope.chargeOn_eq h (h.mono (Nat.add_le_add_right hs.dc_le _) htotals.1)
        (h.mono (Nat.add_le_add_right hs.cc_le _) htotals.2)
    have hmethods : onInnermostOn (·.chargeOn hold (image r.dc)) (l.mapScores image).methods = _ :=
      onInnermostOn_eq fun s hs => hcharge s (hl.methods s hs)
    have hclasses : onInnermostOn (·.chargeOn hold (image r.dc)) (l.mapScores image).classes = _ :=
      onInnermostOn_eq fun s hs => hcharge s (hl.classes s hs)
    rw [if_pos hfit] at hadd ⊢
    rw [if_pos (h.mono (Nat.le_add_left _ _) htotals.1)]
    simp only [Option.bind_eq_bind, Option.bind_some, hadd, hmethods, hclasses]
    rfl
  · rw [if_neg hfit] at hadd ⊢
    split
    · simp only [Option.bind_eq_bind, Option.bind_some, hadd, Option.bind_none]
    · rfl

/-- **A path in a ledger.** -/
theorem performOn_path {l : Ledger} (hl : l.Sound) (hfit : l.result.totalsFit fits = true)
    (inMethod : Bool) : (l.mapScores image).performOn hold (.path inMethod) =
      if (l.result.addPaths 1).totalsFit fits = true
      then some ((l.perform (.path inMethod)).mapScores image) else none := by
  have hadd : (l.mapScores image).result.addPathsOn hold 1 = _ :=
    Breakdown.addPathsOn_eq h (Breakdown.totalsFit_iff.mp hfit).1
  by_cases hpath : (l.result.addPaths 1).totalsFit fits = true
  · have hscope : ∀ s : Scope, s.score.Within l.result →
        (s.mapScores image).addPathsOn hold 1 = some ((s.addPaths 1).mapScores image) :=
      fun s hs => Scope.addPathsOn_eq h
        (h.mono (Nat.add_le_add_right hs.cc_le 1) (Breakdown.totalsFit_iff.mp hpath).2)
    have hmethods : onInnermostOn (·.addPathsOn hold 1) (l.mapScores image).methods = _ :=
      onInnermostOn_eq fun s hs => hscope s (hl.methods s hs)
    have hclasses : onInnermostOn (·.addPathsOn hold 1) (l.mapScores image).classes = _ :=
      onInnermostOn_eq fun s hs => hscope s (hl.classes s hs)
    rw [if_pos hpath] at hadd ⊢
    cases inMethod with
    | true =>
        simp only [performOn, Option.bind_eq_bind, Option.bind_some, hadd, hmethods]
        rfl
    | false =>
        simp only [performOn, Option.bind_eq_bind, Option.bind_some, hadd, hclasses]
        rfl
  · rw [if_neg hpath] at hadd ⊢
    cases inMethod <;> simp only [performOn, Option.bind_eq_bind, hadd, Option.bind_none]

/-- **An act.** -/
theorem performOn_eq {l : Ledger} (hl : l.Sound) (hfit : l.result.totalsFit fits = true)
    (a : Act) : (l.mapScores image).performOn hold a =
      if (l.perform a).result.totalsFit fits = true then some ((l.perform a).mapScores image)
      else none := by
  match a with
  | .score r => exact performOn_score h hl r
  | .path true => exact performOn_path h hl hfit true
  | .path false => exact performOn_path h hl hfit false
  | .openMethod name =>
      have hstart : (l.mapScores image).perform (.openMethod name) =
          (l.perform (.openMethod name)).mapScores image := by
        simp only [perform, mapScores, List.map_cons, Scope.mapScores_start h]
      exact (congrArg some hstart).trans (if_pos hfit).symm
  | .openClass name =>
      have hstart : (l.mapScores image).perform (.openClass name) =
          (l.perform (.openClass name)).mapScores image := by
        simp only [perform, mapScores, List.map_cons, Scope.mapScores_start h]
      exact (congrArg some hstart).trans (if_pos hfit).symm
  | .closeMethod =>
      obtain ⟨methods, classes, result⟩ := l
      cases methods with
      | nil => exact (if_pos hfit).symm
      | cons s ss =>
          have hclose : _ = (result.mapScores image).closeMethod _ := result.mapScores_closeMethod s
          refine Eq.trans (congrArg some ?_) (if_pos hfit).symm
          simp only [perform, mapScores, List.map_cons, hclose]
  | .closeClass =>
      obtain ⟨methods, classes, result⟩ := l
      cases classes with
      | nil => exact (if_pos hfit).symm
      | cons s ss =>
          have hclose : _ = (result.mapScores image).closeClass _ := result.mapScores_closeClass s
          refine Eq.trans (congrArg some ?_) (if_pos hfit).symm
          simp only [perform, mapScores, List.map_cons, hclose]

end Ledger

end

/-! ### Runs -/

/-- The walker with another ledger. -/
def Walker.withLedger (w : Walker) (l : Ledger) : Walker :=
  { w with methods := l.methods, classes := l.classes, result := l.result }

/-- Does tasks until none is left. -/
def runOn : List Task → Walker → Option Walker
  | [], w => some w
  | t :: ts, w => do
    let l ← (act? w t).elim (some w.ledger) (w.ledger.performOn hold)
    runOn ((step w t).2 ++ ts) ((step w t).1.withLedger l)
termination_by ts => costs ts
decreasing_by
  rw [costs_append, costs_cons]
  have := costs_step_lt w t
  omega

/-- The breakdown of a tree. -/
def breakdownOn (root : Node) : Option Breakdown := (runOn hold [.visit root] .initial).map finish

/-- The image of a walker. -/
def Walker.mapScores (image : Nat → Nat) (w : Walker) : Walker :=
  w.withLedger (w.ledger.mapScores image)

section
variable (image : Nat → Nat) (w : Walker)

/-- What a task does is not a matter of scores. -/
theorem act?_mapScores (t : Task) : act? (w.mapScores image) t = act? w t := by
  have hmethods : (w.mapScores image).methods.isEmpty = w.methods.isEmpty := by
    show (w.methods.map _).isEmpty = _
    cases w.methods <;> rfl
  cases t with
  | visit n => simp only [act?, visitAct?, hmethods]; rfl
  | _ => rfl

/-- Neither are the tasks that follow from it, nor the level it leads to. -/
theorem step_mapScores (t : Task) : (step (w.mapScores image) t).2 = (step w t).2 ∧
    ∀ l, (step (w.mapScores image) t).1.withLedger l = (step w t).1.withLedger l := by
  obtain ⟨depth, inCondition, methods, classes, result⟩ := w
  cases t with
  | visit n =>
      simp only [step, visit, Walker.mapScores, Walker.withLedger, Walker.ledger, Ledger.mapScores]
      cases n.kind
      case booleanOperator =>
        refine ⟨rfl, fun l => ?_⟩
        by_cases hfree : inCondition = 0
        · cases methods <;> simp [hfree, Walker.addOperatorPath]
        · simp [hfree]
      all_goals exact ⟨rfl, fun _ => rfl⟩
  | closeMethod => cases methods <;> exact ⟨rfl, fun _ => rfl⟩
  | closeClass => cases classes <;> exact ⟨rfl, fun _ => rfl⟩
  | _ => exact ⟨rfl, fun _ => rfl⟩

theorem mapScores_finish : (finish w).mapScores image = finish (w.mapScores image) := by
  have hmethods : ∀ (ss : List Scope) (b : Breakdown),
      (ss.foldl Breakdown.closeMethod b).mapScores image =
        (ss.map (Scope.mapScores image)).foldl Breakdown.closeMethod (b.mapScores image) := by
    intro ss
    induction ss with
    | nil => exact fun b => rfl
    | cons s ss ih => exact fun b => by simp [ih, Breakdown.mapScores_closeMethod]
  have hclasses : ∀ (ss : List Scope) (b : Breakdown),
      (ss.foldl Breakdown.closeClass b).mapScores image =
        (ss.map (Scope.mapScores image)).foldl Breakdown.closeClass (b.mapScores image) := by
    intro ss
    induction ss with
    | nil => exact fun b => rfl
    | cons s ss ih => exact fun b => by simp [ih, Breakdown.mapScores_closeClass]
  rw [finish, hclasses, hmethods]
  rfl

end

theorem totals_le_run (ts : List Task) (w : Walker) :
    w.result.dc ≤ (run ts w).result.dc ∧ w.result.cc ≤ (run ts w).result.cc := by
  have hfold : ∀ (as : List Act) (l : Ledger),
      l.result.dc ≤ (as.foldl Ledger.perform l).result.dc ∧
        l.result.cc ≤ (as.foldl Ledger.perform l).result.cc := by
    intro as
    induction as with
    | nil => exact fun l => ⟨Nat.le_refl _, Nat.le_refl _⟩
    | cons a as ih =>
        intro l
        obtain ⟨hdc, hcc⟩ := ih (l.perform a)
        exact ⟨Nat.le_trans (l.dc_le_perform a) hdc, Nat.le_trans (l.cc_le_perform a) hcc⟩
  have hrun := hfold (acts ts w) w.ledger
  rw [← run_ledger] at hrun
  exact hrun

section
variable {hold} {image : Nat → Nat} {fits : Nat → Bool} (h : hold.Computes image fits)
include h

/-- **A whole run**: the totals only grow. -/
theorem runOn_eq (ts : List Task) (w : Walker) (hw : w.ledger.Sound)
    (hfit : w.result.totalsFit fits = true) : runOn hold ts (w.mapScores image) =
      if (run ts w).result.totalsFit fits = true then some ((run ts w).mapScores image)
      else none := by
  induction ts, w using run.induct with
  | case1 w => rw [runOn, run_nil, if_pos hfit]
  | case2 t ts w ih =>
      have hledger := ledger_step w t
      have hsound : (step w t).1.ledger.Sound := by
        rw [hledger]
        cases act? w t with
        | none => exact hw
        | some a => exact hw.perform a
      have hact : (act? w t).elim (some (w.mapScores image).ledger)
          ((w.mapScores image).ledger.performOn hold) =
            if (step w t).1.result.totalsFit fits = true
            then some ((step w t).1.ledger.mapScores image) else none := by
        show _ = if (step w t).1.ledger.result.totalsFit fits = true then _ else _
        rw [hledger]
        cases act? w t with
        | none => exact (if_pos hfit).symm
        | some a => exact w.ledger.performOn_eq h hw hfit a
      obtain ⟨htasks, hstate⟩ := step_mapScores image w t
      rw [runOn, act?_mapScores, hact, run_cons, htasks]
      by_cases hstep : (step w t).1.result.totalsFit fits = true
      · rw [if_pos hstep, Option.bind_eq_bind, Option.bind_some, hstate]
        exact ih hsound hstep
      · rw [if_neg hstep, if_neg]
        · rfl
        · intro hall
          obtain ⟨hdc, hcc⟩ := Breakdown.totalsFit_iff.mp hall
          obtain ⟨hdc_le, hcc_le⟩ := totals_le_run ((step w t).2 ++ ts) (step w t).1
          exact hstep (Breakdown.totalsFit_iff.mpr ⟨h.mono hdc_le hdc, h.mono hcc_le hcc⟩)

/-- No number that occurs in a walk is greater than both totals at its end. -/
theorem breakdownOn_eq (t : Node) : breakdownOn hold t =
    if (breakdown t).totalsFit fits = true then some ((breakdown t).mapScores image) else none := by
  have himage : Walker.initial.mapScores image = .initial := by
    simp only [Walker.mapScores, Walker.ledger, Ledger.mapScores, Walker.initial,
      Breakdown.mapScores_baseline h]
    rfl
  have hrun := runOn_eq h [.visit t] .initial Ledger.sound_initial (Breakdown.totalsFit_baseline h)
  rw [himage] at hrun
  unfold breakdownOn
  rw [hrun, ← breakdown_eq]
  split
  · exact congrArg some (mapScores_finish image _).symm
  · rfl

end

/-- **What becomes of a walk on words.** -/
theorem onWords_breakdown (t : Node) : OnWords (breakdownOn · t) (breakdown t) :=
  onWords_of_computes (consistent_breakdown t).bounded.mapScores_residue fun h => breakdownOn_eq h t

theorem exact_of_size_le {t : Node} (h : Shaped t) (hsize : t.size ≤ 2 ^ 19) :
    breakdownOn .checked t = some (breakdown t) ∧ breakdownOn .wrapping t = some (breakdown t) :=
  (onWords_breakdown t).of_totals_lt (totals_lt h hsize)

end Walk

end Python

end DecisionScore
