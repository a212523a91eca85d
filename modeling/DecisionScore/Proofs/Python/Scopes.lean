import DecisionScore.Proofs.Python.Words

/-! # Which scope pays for what

A construct is charged to the innermost method and to the innermost class around it; a boolean
operator outside all scored conditions to the innermost method, or else to the innermost class.
The walk keeps the open scopes on two stacks, and the `Docket` of a kind of scope is one of these
stacks with the scopes that have left it.  `docket_tour` computes it for any part of a tree: the
scope that is open there is charged for the sites it owns, and every definition closes with the
score of its own. -/

namespace DecisionScore.Python.Walk

/-- The kinds of scope. -/
inductive ScopeKind where
  | methods
  | classes
deriving DecidableEq

namespace ScopeKind

/-- The kind of node that opens a scope. -/
def definition : ScopeKind → Kind
  | methods => .functionDefinition
  | classes => .classDefinition

/-- The open scopes of a ledger. -/
def scopes : ScopeKind → Ledger → List Scope
  | methods, l => l.methods
  | classes, l => l.classes

/-- The closed scopes of a breakdown, by name. -/
def stored : ScopeKind → Breakdown → SortedMap String ScopeScore
  | methods, b => b.methods
  | classes, b => b.classes

/-- The scope that a task closes. -/
def closing? : ScopeKind → Walker → Task → Option Scope
  | methods, w, .closeMethod => w.methods.head?
  | classes, w, .closeClass => w.classes.head?
  | _, _, _ => none

/-- The scopes that a run closes, in order, with the scores they have then. -/
def closed (k : ScopeKind) (ts : List Task) (w : Walker) : List Scope :=
  (history ts w).filterMap fun (w, t) => k.closing? w t

end ScopeKind

/-! ### Dockets -/

/-- The open scopes of one kind, innermost first, and the closed ones in order. -/
structure Docket where
  pending : List Scope
  closed : List Scope

instance : Add ScopeScore := ⟨fun x y => ⟨x.dc + y.dc, x.cc + y.cc⟩⟩

/-- Adds to the score of a scope. -/
def gain (x : ScopeScore) (s : Scope) : Scope :=
  { s with score := ⟨s.score.dc + x.dc, s.score.cc + x.cc⟩ }

namespace Docket

/-- Charges the innermost open scope. -/
def charge (d : Docket) (x : ScopeScore) : Docket :=
  { d with pending := Walker.onInnermost (gain x) d.pending }

/-- Charges the innermost open scope, after further scopes were opened and closed. -/
def after (d : Docket) (x : ScopeScore) (ss : List Scope) : Docket :=
  { d.charge x with closed := d.closed ++ ss }

/-- Opens a scope. -/
def opens (d : Docket) (name : String) : Docket := { d with pending := .start name :: d.pending }

/-- Closes the innermost open scope. -/
def closes (d : Docket) : Docket :=
  match d.pending with
  | [] => d
  | s :: ss => ⟨ss, d.closed ++ [s]⟩

/-- Does an act to the scopes of one kind. -/
def perform (k : ScopeKind) (d : Docket) : Act → Docket
  | .score r => d.charge ⟨r.dc, 1⟩
  | .path inMethod => if inMethod = (k == .methods) then d.charge ⟨0, 1⟩ else d
  | .openMethod name => if k = .methods then d.opens name else d
  | .closeMethod => if k = .methods then d.closes else d
  | .openClass name => if k = .classes then d.opens name else d
  | .closeClass => if k = .classes then d.closes else d

/-- The closed scopes by name, the last one of a name counting. -/
def byName (d : Docket) : SortedMap String ScopeScore :=
  SortedMap.ofList (d.closed.map fun s => (s.name, s.score))

theorem byName_closes {d : Docket} {s : Scope} {ss : List Scope} (h : d.pending = s :: ss) :
    d.closes.byName = d.byName.insert s.name s.score := by
  unfold closes byName SortedMap.ofList
  rw [h]
  simp only [List.map_append, List.foldl_append, List.map_cons, List.map_nil, List.foldl_cons,
    List.foldl_nil]

theorem closed_closes (d : Docket) {ss : List Scope} (h : d.pending = ss) :
    d.closes.closed = d.closed ++ ss.head?.toList := by
  unfold closes
  rw [h]
  cases ss with
  | nil => exact (List.append_nil _).symm
  | cons s ss => rfl

/-- A docket that says of one kind of scope what a ledger says. -/
structure Records (k : ScopeKind) (d : Docket) (l : Ledger) : Prop where
  pending : d.pending = k.scopes l
  byName : d.byName = k.stored l.result

end Docket

theorem onInnermost_gain (x y : ScopeScore) (ss : List Scope) :
    Walker.onInnermost (gain y) (Walker.onInnermost (gain x) ss) =
      Walker.onInnermost (gain (x + y)) ss := by
  cases ss with
  | nil => rfl
  | cons s ss =>
      refine congrArg (· :: ss) ?_
      show Scope.mk _ ⟨_ + _ + _, _ + _ + _⟩ = Scope.mk _ ⟨_ + (_ + _), _ + (_ + _)⟩
      rw [Nat.add_assoc, Nat.add_assoc]
      rfl

theorem onInnermost_gain_zero (ss : List Scope) : Walker.onInnermost (gain ⟨0, 0⟩) ss = ss := by
  cases ss <;> rfl

theorem Docket.after_after (d : Docket) (x y : ScopeScore) (ss ts : List Scope) :
    (d.after x ss).after y ts = d.after (x + y) (ss ++ ts) := by
  unfold Docket.after Docket.charge
  rw [onInnermost_gain, List.append_assoc]

theorem Docket.after_zero (d : Docket) : d.after ⟨0, 0⟩ [] = d := by
  unfold Docket.after Docket.charge
  rw [onInnermost_gain_zero, List.append_nil]

theorem Docket.charge_eq_after (d : Docket) (x : ScopeScore) : d.charge x = d.after x [] := by
  unfold Docket.after
  rw [List.append_nil]
  rfl

theorem Docket.closes_opens (d : Docket) (name : String) (x : ScopeScore) (ss : List Scope) :
    ((d.opens name).after x ss).closes = d.after ⟨0, 0⟩ (ss ++ [gain x (.start name)]) := by
  show Docket.mk d.pending (d.closed ++ ss ++ [gain x (.start name)]) = _
  unfold Docket.after Docket.charge
  rw [onInnermost_gain_zero, List.append_assoc]

theorem stored_addTo (k : ScopeKind) (r : Registration) (b : Breakdown) :
    k.stored (r.addTo b) = k.stored b := by
  rw [r.addTo_eq]
  cases k <;> rfl

theorem Docket.Records.closeMethod {d : Docket} {l : Ledger} (h : d.Records .methods l) :
    d.closes.Records .methods (l.perform .closeMethod) := by
  have hp : d.pending = l.methods := h.pending
  cases hm : l.methods with
  | nil =>
      rw [Docket.closes, Ledger.perform, hp, hm]
      exact h
  | cons s ss =>
      have hname := Docket.byName_closes (hp.trans hm)
      rw [h.byName] at hname
      rw [Ledger.perform, hm]
      refine ⟨?_, hname⟩
      rw [Docket.closes, hp, hm]
      rfl

theorem Docket.Records.closeClass {d : Docket} {l : Ledger} (h : d.Records .classes l) :
    d.closes.Records .classes (l.perform .closeClass) := by
  have hp : d.pending = l.classes := h.pending
  cases hc : l.classes with
  | nil =>
      rw [Docket.closes, Ledger.perform, hp, hc]
      exact h
  | cons s ss =>
      have hname := Docket.byName_closes (hp.trans hc)
      rw [h.byName] at hname
      rw [Ledger.perform, hc]
      refine ⟨?_, hname⟩
      rw [Docket.closes, hp, hc]
      rfl

/-- One act keeps the docket in step with the ledger. -/
theorem Docket.Records.perform {k : ScopeKind} {d : Docket} {l : Ledger} (h : d.Records k l)
    (a : Act) : (d.perform k a).Records k (l.perform a) := by
  obtain ⟨hp, hs⟩ := h
  cases a with
  | score r =>
      refine ⟨?_, hs.trans (stored_addTo k r l.result).symm⟩
      show Walker.onInnermost _ d.pending = _
      rw [hp]
      cases k <;> rfl
  | path inMethod =>
      cases k <;> cases inMethod <;> refine ⟨?_, hs⟩
      · exact hp
      · exact congrArg (Walker.onInnermost (gain ⟨0, 1⟩)) hp
      · exact congrArg (Walker.onInnermost (gain ⟨0, 1⟩)) hp
      · exact hp
  | openMethod name =>
      cases k <;> refine ⟨?_, hs⟩
      · exact congrArg (List.cons (Scope.start name)) hp
      · exact hp
  | openClass name =>
      cases k <;> refine ⟨?_, hs⟩
      · exact hp
      · exact congrArg (List.cons (Scope.start name)) hp
  | closeMethod =>
      cases k with
      | methods => exact Records.closeMethod ⟨hp, hs⟩
      | classes =>
          rw [Ledger.perform]
          split <;> exact ⟨hp, hs⟩
  | closeClass =>
      cases k with
      | methods =>
          rw [Ledger.perform]
          split <;> exact ⟨hp, hs⟩
      | classes => exact Records.closeClass ⟨hp, hs⟩

/-- A run keeps the docket in step with the ledger. -/
theorem Docket.Records.run {k : ScopeKind} {d : Docket} {l : Ledger} (h : d.Records k l)
    (as : List Act) : (as.foldl (Docket.perform k) d).Records k (as.foldl Ledger.perform l) := by
  induction as generalizing d l with
  | nil => exact h
  | cons a as ih => exact ih (h.perform a)

/-! ### What a run closes -/

/-- A visit closes nothing. -/
theorem closed_visit (k : ScopeKind) (d : Docket) (w : Walker) (n : Node) :
    ((visitAct? w n).elim d (d.perform k)).closed = d.closed := by
  unfold visitAct?
  cases n.kind
  case booleanOperator =>
    by_cases h : w.inCondition = 0
    · rw [if_pos h, Option.elim_some, Docket.perform]
      split <;> rfl
    · rw [if_neg h, Option.elim_none]
  all_goals cases k <;> rfl

/-- One task closes what it says it closes. -/
theorem closed_step {k : ScopeKind} {w : Walker} {d : Docket}
    (h : d.pending = k.scopes w.ledger) (t : Task) :
    ((act? w t).elim d (d.perform k)).closed = d.closed ++ (k.closing? w t).toList := by
  cases t with
  | visit n =>
      have hnone : k.closing? w (.visit n) = none := by cases k <;> rfl
      rw [hnone, Option.toList_none, List.append_nil]
      exact closed_visit k d w n
  | closeMethod =>
      cases k with
      | methods => exact d.closed_closes h
      | classes => exact (List.append_nil _).symm
  | closeClass =>
      cases k with
      | methods => exact (List.append_nil _).symm
      | classes => exact d.closed_closes h
  | _ => cases k <;> exact (List.append_nil _).symm

theorem closed_cons (k : ScopeKind) (t : Task) (ts : List Task) (w : Walker) :
    k.closed (t :: ts) w =
      (k.closing? w t).toList ++ k.closed ((step w t).2 ++ ts) (step w t).1 := by
  unfold ScopeKind.closed
  rw [history, List.filterMap_cons]
  cases h : k.closing? w t <;> simp [h]

/-- The scopes that a run closes are those that its acts close. -/
theorem closed_run {k : ScopeKind} (ts : List Task) (w : Walker) {d : Docket}
    (h : d.Records k w.ledger) :
    ((acts ts w).foldl (Docket.perform k) d).closed = d.closed ++ k.closed ts w := by
  induction ts, w using run.induct generalizing d with
  | case1 w =>
      unfold ScopeKind.closed
      rw [acts_nil, history]
      exact (List.append_nil _).symm
  | case2 t ts w ih =>
      have hstep : ((act? w t).elim d (d.perform k)).Records k (step w t).1.ledger := by
        rw [ledger_step]
        cases act? w t with
        | none => exact h
        | some a => exact h.perform a
      have hfold : (acts (t :: ts) w).foldl (Docket.perform k) d =
          (acts ((step w t).2 ++ ts) (step w t).1).foldl (Docket.perform k)
            ((act? w t).elim d (d.perform k)) := by
        rw [acts_cons, List.foldl_append]
        cases act? w t <;> rfl
      rw [hfold, ih hstep, closed_step h.pending, closed_cons, List.append_assoc]

/-- The empty docket of a walk that has not begun. -/
theorem records_initial (k : ScopeKind) :
    Docket.Records k ⟨[], []⟩ (Walker.ledger .initial) := by
  cases k <;> exact ⟨rfl, rfl⟩

end DecisionScore.Python.Walk

namespace DecisionScore.Python

open Walk

/-! ### Owners -/

/-- The address of the innermost definition among the ancestors. -/
def ownerOf (k : ScopeKind) (above : List Ancestor) : Option (List Nat) :=
  (innermostOf? k.definition above).map Site.address

/-- The address of the definition whose scope a site belongs to. -/
def Site.owner? (k : ScopeKind) (p : Site) : Option (List Nat) :=
  (p.innermost? k.definition).map Site.address

theorem ownerOf_cons (k : ScopeKind) (a : Ancestor) (above : List Ancestor) :
    ownerOf k (a :: above) =
      if a.node.kind = k.definition then some (addressOf above) else ownerOf k above := by
  unfold ownerOf
  rw [innermostOf?]
  split <;> rfl

/-- A definition stands above what it owns. -/
theorem length_lt_of_ownerOf {k : ScopeKind} {above : List Ancestor} {a : List Nat}
    (h : ownerOf k above = some a) : a.length < above.length := by
  induction above with
  | nil => cases h
  | cons b above ih =>
      rw [ownerOf_cons] at h
      rw [List.length_cons]
      split at h
      · obtain rfl := Option.some.inj h
        simp [addressOf]
      · have := ih h
        omega

theorem ownerOf_append (k : ScopeKind) (pre above : List Ancestor) :
    ownerOf k (pre ++ above) = ownerOf k above ∨
      ∃ a, ownerOf k (pre ++ above) = some a ∧ addressOf above <:+ a := by
  induction pre with
  | nil => exact .inl rfl
  | cons b pre ih =>
      rw [List.cons_append, ownerOf_cons]
      split
      · refine .inr ⟨_, rfl, ?_⟩
        exact (List.suffix_append pre above).map _
      · exact ih

/-- The owner of a site is the one of the part of the tree it is in, or is in that part too. -/
theorem owner?_of_mem {k : ScopeKind} {above : List Ancestor} {n : Node} {p : Site}
    (h : p ∈ sitesFrom above n) : p.owner? k = ownerOf k above ∨
      ∃ a, p.owner? k = some a ∧ addressOf above <:+ a := by
  obtain ⟨pre, hpre⟩ := suffix_above_of_mem h
  have happend := ownerOf_append k pre above
  rw [hpre] at happend
  exact happend

/-- An owner below one child of a node has no sites below another one. -/
theorem eq_of_owner? {k : ScopeKind} {n c : Node} {above : List Ancestor} {i j : Nat} {p : Site}
    {a : List Nat} (hp : p ∈ sitesFrom (⟨n, j⟩ :: above) c) (hk : p.owner? k = some a)
    (ha : i :: addressOf above <:+ a) : i = j := by
  rcases owner?_of_mem (k := k) hp with howner | ⟨b, hb, hsuffix⟩
  · have hlt := length_lt_of_ownerOf (howner.symm.trans hk)
    have hle := ha.length_le
    simp only [addressOf, List.length_cons, List.length_map] at hlt hle
    omega
  · obtain rfl := Option.some.inj (hk.symm.trans hb)
    exact eq_of_suffix_cons ha hsuffix

/-- What is below a definition does not belong to the scope around the definition. -/
theorem owner?_ne_of_definition {k : ScopeKind} {n c : Node} {above : List Ancestor} {j : Nat}
    {p : Site} (hn : n.kind = k.definition) (hp : p ∈ sitesFrom (⟨n, j⟩ :: above) c) :
    p.owner? k ≠ ownerOf k above := by
  intro h
  have hlong : ∃ a, p.owner? k = some a ∧ above.length ≤ a.length := by
    rcases owner?_of_mem (k := k) hp with howner | ⟨a, ha, hsuffix⟩
    · rw [ownerOf_cons, if_pos hn] at howner
      exact ⟨_, howner, by simp [addressOf]⟩
    · have hle := hsuffix.length_le
      simp only [addressOf, List.length_cons, List.length_map] at hle
      exact ⟨a, ha, by omega⟩
  obtain ⟨a, ha, hle⟩ := hlong
  have := length_lt_of_ownerOf (h.symm.trans ha)
  omega

/-! ### Tallies -/

/-- Whether a site adds a path of its own to the scope it belongs to: a boolean operator does so to
a method, and to a class if there is no method around it. -/
def Site.addsPathTo (k : ScopeKind) (p : Site) : Bool :=
  p.isFreeOperator && (p.innermost? .functionDefinition).isSome == (k == .methods)

/-- What a site charges to the scope it belongs to. -/
def Site.charge (k : ScopeKind) (p : Site) : ScopeScore :=
  ⟨p.contribution, (if p.isConstruct then 1 else 0) + if p.addsPathTo k then 1 else 0⟩

/-- What several sites charge to the scope they belong to. -/
def tally (k : ScopeKind) (ps : List Site) : ScopeScore :=
  ⟨(ps.map Site.contribution).sum, ps.countP Site.isConstruct + ps.countP (Site.addsPathTo k)⟩

/-- Those of the sites that have the given owner. -/
def ownedBy (k : ScopeKind) (o : Option (List Nat)) (ps : List Site) : List Site :=
  ps.filter fun p => p.owner? k == o

/-- The definitions of a kind of scope. -/
def definitions (k : ScopeKind) (ps : List Site) : List Site :=
  ps.filter fun p => p.node.kind == k.definition

/-- The scope of a definition as it is to be closed. -/
def closedScope (k : ScopeKind) (ps : List Site) (d : Site) : Scope :=
  gain (tally k (ownedBy k (some d.address) ps)) (.start (nameOf d.node))

theorem tally_cons (k : ScopeKind) (p : Site) (ps : List Site) :
    tally k (p :: ps) = p.charge k + tally k ps := by
  unfold tally Site.charge
  rw [List.map_cons, List.sum_cons, List.countP_cons, List.countP_cons]
  refine congrArg (ScopeScore.mk _) ?_
  show _ = (_ + _) + (_ + _)
  omega

theorem tally_append (k : ScopeKind) (ps qs : List Site) :
    tally k (ps ++ qs) = tally k ps + tally k qs := by
  unfold tally
  rw [List.map_append, List.sum_append, List.countP_append, List.countP_append]
  refine congrArg (ScopeScore.mk _) ?_
  show _ = (_ + _) + (_ + _)
  omega

theorem ownedBy_append (k : ScopeKind) (o : Option (List Nat)) (ps qs : List Site) :
    ownedBy k o (ps ++ qs) = ownedBy k o ps ++ ownedBy k o qs := List.filter_append ps qs

theorem ownedBy_eq_nil {k : ScopeKind} {o : Option (List Nat)} {ps : List Site}
    (h : ∀ p ∈ ps, p.owner? k ≠ o) : ownedBy k o ps = [] :=
  List.filter_eq_nil_iff.mpr fun p hp => by simpa using h p hp

/-- The scope of a definition in a longer list of sites that it owns no more of. -/
theorem closedScope_append_left {k : ScopeKind} {ps qs : List Site} {d : Site}
    (h : ∀ p ∈ qs, p.owner? k ≠ some d.address) :
    closedScope k (ps ++ qs) d = closedScope k ps d := by
  unfold closedScope
  rw [ownedBy_append, ownedBy_eq_nil h, List.append_nil]

theorem closedScope_append_right {k : ScopeKind} {ps qs : List Site} {d : Site}
    (h : ∀ p ∈ ps, p.owner? k ≠ some d.address) :
    closedScope k (ps ++ qs) d = closedScope k qs d := by
  unfold closedScope
  rw [ownedBy_append, ownedBy_eq_nil h, List.nil_append]

/-! ### One site -/

theorem docket_construct {k : ScopeKind} {p : Site} {r : Registration}
    (h : p.registration? = some r) (d : Docket) :
    (Docket.perform k d (.score r)) = d.after (p.charge k) [] := by
  have hkind := (registration?_eq_some h).1
  have hoperator : p.isFreeOperator = false := by
    unfold Site.isFreeOperator
    cases hk : p.node.kind <;> simp_all [Kind.construct?]
  have hcharge : p.charge k = ⟨r.dc, 1⟩ := by
    simp [Site.charge, Site.isConstruct, Site.addsPathTo, hkind, hoperator, dc_eq_contribution h]
  rw [hcharge, ← Docket.charge_eq_after]
  rfl

theorem docket_operator {k : ScopeKind} {p : Site} (h : p.node.kind = .booleanOperator)
    (d : Docket) : p.enterActs.foldl (Docket.perform k) d = d.after (p.charge k) [] := by
  have hnone : p.node.kind.construct? = none := by rw [h]; rfl
  have hcharge : p.charge k = ⟨0, if p.addsPathTo k then 1 else 0⟩ := by
    simp [Site.charge, Site.isConstruct, Site.contribution, hnone]
  rw [hcharge]
  unfold Site.enterActs Site.addsPathTo Site.isFreeOperator
  rw [h]
  by_cases hfree : p.isFree = true
  · simp only [hfree, if_true, List.foldl_cons, List.foldl_nil, Docket.perform]
    by_cases hpath : (p.innermost? .functionDefinition).isSome = (k == .methods)
    · simp only [hpath, if_true]
      simp [Docket.charge_eq_after]
    · simp [hpath, Docket.after_zero]
  · simp [hfree, Docket.after_zero]

/-- Entering a site that is no definition charges the innermost scope. -/
theorem docket_enter {k : ScopeKind} {p : Site} (h : p.node.kind ≠ k.definition) (d : Docket) :
    p.enterActs.foldl (Docket.perform k) d = d.after (p.charge k) [] := by
  by_cases hoperator : p.node.kind = .booleanOperator
  · exact docket_operator hoperator d
  cases hr : p.registration? with
  | some r =>
      have henter : p.enterActs = [.score r] := by
        have hkind := (registration?_eq_some hr).1
        unfold Site.enterActs
        cases hk : p.node.kind <;> simp_all [Kind.construct?]
      rw [henter]
      exact docket_construct hr d
  | none =>
      have hnone : p.node.kind.construct? = none := by
        simpa [Site.registration?] using hr
      have hcharge : p.charge k = ⟨0, 0⟩ := by
        simp [Site.charge, Site.isConstruct, Site.contribution, Site.addsPathTo,
          Site.isFreeOperator, hnone, hoperator]
      rw [hcharge, Docket.after_zero]
      unfold Site.enterActs
      rw [hr]
      cases k
      case methods =>
        cases hk : p.node.kind
        case functionDefinition => exact absurd hk h
        case booleanOperator => exact absurd hk hoperator
        all_goals rfl
      case classes =>
        cases hk : p.node.kind
        case classDefinition => exact absurd hk h
        case booleanOperator => exact absurd hk hoperator
        all_goals rfl

/-- Entering a definition opens its scope. -/
theorem docket_open {k : ScopeKind} {p : Site} (h : p.node.kind = k.definition) (d : Docket) :
    p.enterActs.foldl (Docket.perform k) d = d.opens (nameOf p.node) := by
  unfold Site.enterActs
  rw [h]
  cases k <;> rfl

/-- Leaving a definition closes its scope. -/
theorem docket_close {k : ScopeKind} {p : Site} (h : p.node.kind = k.definition) (d : Docket) :
    p.leaveActs.foldl (Docket.perform k) d = d.closes := by
  unfold Site.leaveActs
  rw [h]
  cases k <;> rfl

theorem docket_leave {k : ScopeKind} {p : Site} (h : p.node.kind ≠ k.definition) (d : Docket) :
    p.leaveActs.foldl (Docket.perform k) d = d := by
  unfold Site.leaveActs
  cases k
  case methods =>
    cases hk : p.node.kind
    case functionDefinition => exact absurd hk h
    all_goals rfl
  case classes =>
    cases hk : p.node.kind
    case classDefinition => exact absurd hk h
    all_goals rfl

/-! ### The tour of a part of a tree -/

/-- The tour of a node charges the scope around the node for the sites that it owns, and closes the
scope of every definition at and below the node with what that one owns. -/
def Settles (k : ScopeKind) (above : List Ancestor) (n : Node) : Prop :=
  ∀ d : Docket, (tourActs above n).foldl (Docket.perform k) d =
    d.after (tally k (ownedBy k (ownerOf k above) (sitesFrom above n)))
      ((definitions k (leftFrom above n)).map (closedScope k (sitesFrom above n)))

theorem definitions_append (k : ScopeKind) (ps qs : List Site) :
    definitions k (ps ++ qs) = definitions k ps ++ definitions k qs := List.filter_append ps qs

theorem mem_sitesFrom_of_definition {k : ScopeKind} {above : List Ancestor} {n : Node} {d : Site}
    (h : d ∈ definitions k (leftFrom above n)) : d ∈ sitesFrom above n :=
  (leftFrom_perm above n).mem_iff.mp (List.mem_of_mem_filter h)

theorem mem_sitesBelow_of_definition {k : ScopeKind} {n : Node} {above : List Ancestor} {i : Nat}
    {cs : List Node} {d : Site} (h : d ∈ definitions k (leftBelow n above i cs)) :
    d ∈ sitesBelow n above i cs :=
  (leftBelow_perm n above i cs).mem_iff.mp (List.mem_of_mem_filter h)

/-- The children of a node from number `i` on. -/
theorem docket_below {k : ScopeKind} {n : Node} {above : List Ancestor} {cs : List Node}
    (h : ∀ c ∈ cs, ∀ i, Settles k (⟨n, i⟩ :: above) c) (i : Nat) (d : Docket) :
    (tourActsBelow n above i cs).foldl (Docket.perform k) d =
      d.after (tally k (ownedBy k (ownerOf k (⟨n, 0⟩ :: above)) (sitesBelow n above i cs)))
        ((definitions k (leftBelow n above i cs)).map
          (closedScope k (sitesBelow n above i cs))) := by
  induction cs generalizing i d with
  | nil =>
      rw [tourActsBelow_nil, sitesBelow_nil, leftBelow_nil]
      exact d.after_zero.symm
  | cons c cs ih =>
      have hcs := fun e he => h e (List.mem_cons_of_mem c he)
      have hc := h c List.mem_cons_self i d
      have howner : ownerOf k (⟨n, i⟩ :: above) = ownerOf k (⟨n, 0⟩ :: above) := by
        rw [ownerOf_cons, ownerOf_cons]
      -- a definition below this child owns nothing below the later ones
      have hleft : (definitions k (leftFrom (⟨n, i⟩ :: above) c)).map
          (closedScope k (sitesFrom (⟨n, i⟩ :: above) c ++ sitesBelow n above (i + 1) cs)) =
          (definitions k (leftFrom (⟨n, i⟩ :: above) c)).map
            (closedScope k (sitesFrom (⟨n, i⟩ :: above) c)) := by
        refine List.map_congr_left fun e he => closedScope_append_left fun p hp hk => ?_
        obtain ⟨j, b, hj, -, hpj⟩ := exists_of_mem_sitesBelow hp
        have he' : i :: addressOf above <:+ e.address :=
          suffix_of_mem_sitesFrom (mem_sitesFrom_of_definition he)
        have := eq_of_owner? hpj hk he'
        omega
      -- and the other way round
      have hright : (definitions k (leftBelow n above (i + 1) cs)).map
          (closedScope k (sitesFrom (⟨n, i⟩ :: above) c ++ sitesBelow n above (i + 1) cs)) =
          (definitions k (leftBelow n above (i + 1) cs)).map
            (closedScope k (sitesBelow n above (i + 1) cs)) := by
        refine List.map_congr_left fun e he => closedScope_append_right fun p hp hk => ?_
        obtain ⟨j, b, hj, -, hej⟩ := exists_of_mem_sitesBelow (mem_sitesBelow_of_definition he)
        have he' : j :: addressOf above <:+ e.address := suffix_of_mem_sitesFrom hej
        have := eq_of_owner? hp hk he'
        omega
      rw [tourActsBelow_cons, List.foldl_append, hc, ih hcs, Docket.after_after, howner,
        sitesBelow_cons, leftBelow_cons, definitions_append, List.map_append, hleft, hright,
        ownedBy_append, tally_append]

/-- A site owns nothing that is not below it. -/
theorem owner?_ne_address {k : ScopeKind} {above : List Ancestor} {n : Node} {d : Site}
    (h : above.length ≤ d.address.length) : Site.owner? k ⟨n, above⟩ ≠ some d.address := by
  intro howner
  have howner' : ownerOf k above = some d.address := howner
  have := length_lt_of_ownerOf howner'
  omega

theorem closedScope_cons {k : ScopeKind} {above : List Ancestor} {n : Node} {ps : List Site}
    {d : Site} (h : above.length ≤ d.address.length) :
    closedScope k (⟨n, above⟩ :: ps) d = closedScope k ps d := by
  have hself : ∀ p ∈ [Site.mk n above], p.owner? k ≠ some d.address := fun p hp => by
    obtain rfl := List.mem_singleton.mp hp
    exact owner?_ne_address h
  exact closedScope_append_right hself

/-- The definitions below a node close with what they own, whether the node is counted in or not. -/
theorem closedScopes_below {k : ScopeKind} {n : Node} {above : List Ancestor} {cs : List Node} :
    (definitions k (leftBelow n above 0 cs)).map
        (closedScope k (⟨n, above⟩ :: sitesBelow n above 0 cs)) =
      (definitions k (leftBelow n above 0 cs)).map (closedScope k (sitesBelow n above 0 cs)) := by
  refine List.map_congr_left fun d hd => closedScope_cons ?_
  obtain ⟨j, c, -, -, hmem⟩ := exists_of_mem_sitesBelow (mem_sitesBelow_of_definition hd)
  have hle := (suffix_of_mem_sitesFrom hmem).length_le
  simp only [addressOf, List.length_cons, List.length_map] at hle
  omega

/-- A node that is no definition. -/
theorem settles_other {k : ScopeKind} {n : Node} {above : List Ancestor}
    (hn : n.kind ≠ k.definition) (h : ∀ c ∈ n.children, ∀ i, Settles k (⟨n, i⟩ :: above) c) :
    Settles k above n := by
  intro d
  have howner : ownerOf k (⟨n, 0⟩ :: above) = ownerOf k above := by
    rw [ownerOf_cons, if_neg hn]
  have hself : ownedBy k (ownerOf k above) (⟨n, above⟩ :: sitesBelow n above 0 n.children) =
      ⟨n, above⟩ :: ownedBy k (ownerOf k above) (sitesBelow n above 0 n.children) :=
    List.filter_cons_of_pos (beq_self_eq_true _)
  have hleft : definitions k [⟨n, above⟩] = [] := List.filter_cons_of_neg (by simpa using hn)
  rw [tourActs_eq, List.foldl_append, List.foldl_append, docket_enter (by exact hn),
    docket_below h, docket_leave (by exact hn), Docket.after_after, howner, sitesFrom_eq,
    leftFrom_eq, definitions_append, hleft, List.append_nil, hself, tally_cons,
    closedScopes_below, List.nil_append]

theorem charge_definition {k : ScopeKind} {p : Site} (h : p.node.kind = k.definition) :
    p.charge k = ⟨0, 0⟩ := by
  unfold Site.charge Site.contribution Site.isConstruct Site.addsPathTo Site.isFreeOperator
  rw [h]
  cases k <;> rfl

/-- A definition. -/
theorem settles_definition {k : ScopeKind} {n : Node} {above : List Ancestor}
    (hn : n.kind = k.definition) (h : ∀ c ∈ n.children, ∀ i, Settles k (⟨n, i⟩ :: above) c) :
    Settles k above n := by
  intro d
  have howner : ownerOf k (⟨n, 0⟩ :: above) = some (addressOf above) := by
    rw [ownerOf_cons, if_pos hn]
  have hnone : ownedBy k (ownerOf k above) (sitesBelow n above 0 n.children) = [] := by
    refine ownedBy_eq_nil fun p hp => ?_
    obtain ⟨j, c, -, -, hmem⟩ := exists_of_mem_sitesBelow hp
    exact owner?_ne_of_definition hn hmem
  have hself : ownedBy k (ownerOf k above) (⟨n, above⟩ :: sitesBelow n above 0 n.children) =
      [⟨n, above⟩] := by
    rw [← hnone]
    exact List.filter_cons_of_pos (beq_self_eq_true _)
  have htally : tally k [⟨n, above⟩] = ⟨0, 0⟩ := by
    rw [tally_cons, charge_definition (by exact hn)]
    rfl
  have hleft : definitions k [⟨n, above⟩] = [⟨n, above⟩] :=
    List.filter_cons_of_pos (by simpa using hn)
  have hclosed : closedScope k (⟨n, above⟩ :: sitesBelow n above 0 n.children) ⟨n, above⟩ =
      gain (tally k (ownedBy k (some (addressOf above)) (sitesBelow n above 0 n.children)))
        (.start (nameOf n)) := by
    rw [closedScope_cons (by simp [Site.address])]
    rfl
  rw [tourActs_eq, List.foldl_append, List.foldl_append, docket_open (by exact hn),
    docket_below h, docket_close (by exact hn), Docket.closes_opens, howner, sitesFrom_eq,
    leftFrom_eq, definitions_append, hleft, List.map_append, List.map_singleton, hclosed, hself,
    htally, closedScopes_below]

/-- **The tour of any part of a tree** charges the scope around it, and closes the scopes in it. -/
theorem docket_tour (k : ScopeKind) (above : List Ancestor) (n : Node) : Settles k above n := by
  induction n using Tree.childInduction generalizing above with
  | node n ih =>
      by_cases hn : n.kind = k.definition
      · exact settles_definition hn fun c hc i => ih c hc _
      · exact settles_other hn fun c hc i => ih c hc _

/-! ### The scopes of a tree -/

/-- The sites of a tree whose innermost definition is `d`. -/
def ownSites (k : ScopeKind) (t : Node) (d : Site) : List Site :=
  ownedBy k (some d.address) (sites t)

/-- The score of a method: its constructs, and the boolean operators outside all scored conditions
as further paths. -/
def methodScore (t : Node) (d : Site) : ScopeScore where
  dc := (((ownSites .methods t d).filter Site.isConstruct).map Site.contribution).sum
  cc := 1 + (ownSites .methods t d).countP Site.isConstruct +
    (ownSites .methods t d).countP Site.isFreeOperator

/-- The score of a class: the constructs in it and in its methods, and those of the boolean
operators outside all scored conditions that are in no function. -/
def classScore (t : Node) (d : Site) : ScopeScore where
  dc := (((ownSites .classes t d).filter Site.isConstruct).map Site.contribution).sum
  cc := 1 + (ownSites .classes t d).countP Site.isConstruct +
    (ownSites .classes t d).countP fun p =>
      p.isFreeOperator && (p.innermost? .functionDefinition).isNone

theorem sum_contributions (ps : List Site) :
    ((ps.filter Site.isConstruct).map Site.contribution).sum = (ps.map Site.contribution).sum := by
  induction ps with
  | nil => rfl
  | cons p ps ih =>
      by_cases h : p.isConstruct = true
      · rw [List.filter_cons_of_pos h, List.map_cons, List.map_cons, List.sum_cons, List.sum_cons,
          ih]
      · have hzero : p.contribution = 0 := by
          have hnone : p.node.kind.construct? = none := by simpa [Site.isConstruct] using h
          simp [Site.contribution, hnone]
        rw [List.filter_cons_of_neg h, List.map_cons, List.sum_cons, ih, hzero, Nat.zero_add]

theorem closedScope_methods (t : Node) (d : Site) :
    closedScope .methods (sites t) d = ⟨nameOf d.node, methodScore t d⟩ := by
  have hpaths : (ownSites .methods t d).countP (Site.addsPathTo .methods) =
      (ownSites .methods t d).countP Site.isFreeOperator := by
    refine List.countP_congr fun p hp => ?_
    have howner : p.owner? .methods = some d.address := by
      simpa using (List.mem_filter.mp hp).2
    have hsome : (p.innermost? .functionDefinition).isSome = true := by
      obtain ⟨q, hq, -⟩ := Option.map_eq_some_iff.mp howner
      exact Option.isSome_iff_exists.mpr ⟨q, hq⟩
    simp [Site.addsPathTo, hsome]
  unfold closedScope methodScore
  rw [← hpaths, sum_contributions]
  show Scope.mk _ ⟨0 + _, 1 + (_ + _)⟩ = _
  rw [Nat.zero_add, ← Nat.add_assoc]
  rfl

theorem closedScope_classes (t : Node) (d : Site) :
    closedScope .classes (sites t) d = ⟨nameOf d.node, classScore t d⟩ := by
  have hpaths : (ownSites .classes t d).countP (Site.addsPathTo .classes) =
      (ownSites .classes t d).countP fun p =>
        p.isFreeOperator && (p.innermost? .functionDefinition).isNone := by
    refine List.countP_congr fun p _ => ?_
    cases hp : p.innermost? .functionDefinition <;> simp [Site.addsPathTo, hp]
  unfold closedScope classScore
  rw [← hpaths, sum_contributions]
  show Scope.mk _ ⟨0 + _, 1 + (_ + _)⟩ = _
  rw [Nat.zero_add, ← Nat.add_assoc]
  rfl

/-- The docket after the walk of a shaped tree. -/
theorem docket_root (k : ScopeKind) {t : Node} (h : Shaped t) :
    ((acts [.visit t] .initial).foldl (Docket.perform k) ⟨[], []⟩).closed =
      (definitions k (sitesLeft t)).map (closedScope k (sites t)) := by
  have htour := docket_tour k [] t ⟨[], []⟩
  rw [acts_root h]
  exact congrArg Docket.closed htour

theorem closed_root (k : ScopeKind) {t : Node} (h : Shaped t) :
    k.closed [.visit t] .initial =
      (definitions k (sitesLeft t)).map (closedScope k (sites t)) := by
  have hclosed := closed_run [.visit t] .initial (records_initial k)
  rw [docket_root k h] at hclosed
  exact hclosed.symm

theorem stored_root (k : ScopeKind) {t : Node} (h : Shaped t) :
    k.stored (breakdown t) = SortedMap.ofList ((definitions k (sitesLeft t)).map fun d =>
      (nameOf d.node, (closedScope k (sites t) d).score)) := by
  have hrecords := (records_initial k).run (acts [.visit t] .initial)
  rw [breakdown_result, ← hrecords.byName, Docket.byName, docket_root k h, List.map_map]
  rfl

/-- Of the definitions of one name the one that is left last counts. -/
theorem get?_stored (k : ScopeKind) {t : Node} (h : Shaped t) (name : String) :
    (k.stored (breakdown t)).get? name =
      ((definitions k (sitesLeft t)).filter fun d => nameOf d.node = name).getLast?.map fun d =>
        (closedScope k (sites t) d).score := by
  rw [stored_root k h, SortedMap.get?_ofList, List.filter_map, List.getLast?_map, Option.map_map]
  rfl

theorem mem_keys_stored (k : ScopeKind) {t : Node} (h : Shaped t) (name : String) :
    name ∈ (k.stored (breakdown t)).keys ↔
      ∃ d ∈ sites t, d.node.kind = k.definition ∧ nameOf d.node = name := by
  have hmem : ∀ d, d ∈ sitesLeft t ↔ d ∈ sites t := fun d => (leftFrom_perm [] t).mem_iff
  rw [SortedMap.mem_keys, get?_stored k h, Option.isSome_map, List.getLast?_isSome]
  constructor
  · intro hne
    obtain ⟨d, hd⟩ := List.exists_mem_of_ne_nil _ hne
    simp only [definitions, List.mem_filter, beq_iff_eq, decide_eq_true_eq] at hd
    exact ⟨d, (hmem d).mp hd.1.1, hd.1.2, hd.2⟩
  · rintro ⟨d, hd, hkind, hname⟩
    refine List.ne_nil_of_mem (a := d) ?_
    simp only [definitions, List.mem_filter, beq_iff_eq, decide_eq_true_eq]
    exact ⟨⟨(hmem d).mpr hd, hkind⟩, hname⟩

/-- **Every definition closes with the score of its own sites.**  A method closes with what its
own constructs contribute and with one path for each of them and for each of its own boolean
operators outside all scored conditions; a class likewise, but with only those operators that no
function encloses.  The breakdown has the names of the definitions, each with the score of the
definition of that name that is left last.  On words of 64 bits the walk comes to these scores if
and only if the totals of the tree fit; otherwise it overflows, or leaves the residues of the
scores.  The totals of a tree of up to `2 ^ 19` nodes fit. -/
theorem scopes_attributed {t : Node} (h : Grammatical t) :
    ScopeKind.methods.closed [.visit t] .initial =
        (definitions .methods (sitesLeft t)).map (fun d => ⟨nameOf d.node, methodScore t d⟩) ∧
      ScopeKind.classes.closed [.visit t] .initial =
        (definitions .classes (sitesLeft t)).map (fun d => ⟨nameOf d.node, classScore t d⟩) ∧
      (∀ name, (breakdown t).methods.get? name =
        ((definitions .methods (sitesLeft t)).filter fun d => nameOf d.node = name).getLast?.map
          (methodScore t)) ∧
      (∀ name, (breakdown t).classes.get? name =
        ((definitions .classes (sitesLeft t)).filter fun d => nameOf d.node = name).getLast?.map
          (classScore t)) ∧
      (∀ name, name ∈ (breakdown t).methods.keys ↔
        ∃ d ∈ sites t, d.node.kind = .functionDefinition ∧ nameOf d.node = name) ∧
      (∀ name, name ∈ (breakdown t).classes.keys ↔
        ∃ d ∈ sites t, d.node.kind = .classDefinition ∧ nameOf d.node = name) ∧
      OnWords (Walk.breakdownOn · t) (breakdown t) ∧
      (t.size ≤ 2 ^ 19 → Walk.breakdownOn .checked t = some (breakdown t) ∧
        Walk.breakdownOn .wrapping t = some (breakdown t)) := by
  have hmethods : closedScope .methods (sites t) = fun d => ⟨nameOf d.node, methodScore t d⟩ :=
    funext (closedScope_methods t)
  have hclasses : closedScope .classes (sites t) = fun d => ⟨nameOf d.node, classScore t d⟩ :=
    funext (closedScope_classes t)
  have hs := h.shaped
  have hm := get?_stored .methods hs
  have hc := get?_stored .classes hs
  rw [hmethods] at hm
  rw [hclasses] at hc
  refine ⟨?_, ?_, hm, hc, mem_keys_stored .methods hs, mem_keys_stored .classes hs,
    onWords_breakdown t, exact_of_size_le hs⟩
  · rw [closed_root .methods hs, hmethods]
  · rw [closed_root .classes hs, hclasses]

/-- In the sample the inner method closes first, so that the outer one of the same name counts; the
class pays for the constructs of both. -/
theorem scopes_attributed_sample : Shaped sample ∧
    ScopeKind.methods.closed [.visit sample] .initial = [⟨"f", ⟨1, 2⟩⟩, ⟨"f", ⟨76, 7⟩⟩] ∧
    ScopeKind.classes.closed [.visit sample] .initial = [⟨"C", ⟨77, 7⟩⟩] ∧
    (breakdown sample).methods.get? "f" = some ⟨76, 7⟩ ∧
    (breakdown sample).classes.get? "C" = some ⟨77, 7⟩ := by
  have hshaped : Shaped sample := by decide
  obtain ⟨hmethods, hclasses, hm, hc, -, -, -, -⟩ := scopes_attributed (.inr hshaped)
  refine ⟨hshaped, ?_, ?_, ?_, ?_⟩
  · rw [hmethods]
    decide +kernel
  · rw [hclasses]
    decide +kernel
  · rw [hm]
    decide +kernel
  · rw [hc]
    decide +kernel

end DecisionScore.Python
