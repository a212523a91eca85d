import DecisionScore.Proofs.Python.Scopes

/-! # Who pays for a boolean operator

A boolean operator outside all scored conditions adds a path to one open scope.  The open functions
and the open classes are on two stacks, and neither says how it lies with the other.  But when the
walk comes to a site, each stack holds the definitions of its kind around the site, innermost first
(`scopes_at`), so the scope that pays is that of the innermost function, or else of the innermost
class (`Site.payer?`).  That is the innermost definition of all, unless it is a class and a function
is around the class (`Site.payer?_eq`). -/

namespace DecisionScore.Python

open Walk

/-! ### Definitions around a site -/

/-- The definitions of one kind among the ancestors, innermost first. -/
def definitionsAbove (k : ScopeKind) : List Ancestor → List Site
  | [] => []
  | a :: above =>
    if a.node.kind = k.definition then ⟨a.node, above⟩ :: definitionsAbove k above
    else definitionsAbove k above

/-- The innermost definition of either kind among the ancestors. -/
def innermostDefinitionOf? : List Ancestor → Option (ScopeKind × Site)
  | [] => none
  | a :: above =>
    match a.node.kind with
    | .functionDefinition => some (.methods, ⟨a.node, above⟩)
    | .classDefinition => some (.classes, ⟨a.node, above⟩)
    | _ => innermostDefinitionOf? above

theorem innermostOf?_eq_head? (k : ScopeKind) (above : List Ancestor) :
    innermostOf? k.definition above = (definitionsAbove k above).head? := by
  induction above with
  | nil => rfl
  | cons a above ih =>
      rw [innermostOf?, definitionsAbove]
      split
      · rfl
      · exact ih

namespace Site

/-- The definitions of one kind around a site, innermost first. -/
def around (k : ScopeKind) (p : Site) : List Site := definitionsAbove k p.above

/-- The innermost definition around a site, whichever of the two kinds it is. -/
def innermostDefinition? (p : Site) : Option (ScopeKind × Site) := innermostDefinitionOf? p.above

/-- The definition whose scope pays for an operator at the site: the innermost function, or else the
innermost class. -/
def payer? (p : Site) : Option (ScopeKind × Site) :=
  match p.innermost? .functionDefinition with
  | some d => some (.methods, d)
  | none => (p.innermost? .classDefinition).map fun d => (.classes, d)

/-- **The innermost definition pays**, unless it is a class and a function is around the class: then
the innermost function does. -/
theorem payer?_eq (p : Site) : p.payer? =
    match p.innermostDefinition? with
    | some (.classes, c) =>
      match c.innermost? .functionDefinition with
      | some d => some (.methods, d)
      | none => some (.classes, c)
    | o => o := by
  obtain ⟨n, above⟩ := p
  unfold payer? innermostDefinition? innermost?
  simp only
  induction above with
  | nil => rfl
  | cons a above ih =>
      rw [innermostOf?, innermostOf?, innermostDefinitionOf?]
      cases a.node.kind
      case functionDefinition => rfl
      case classDefinition =>
        dsimp only
        cases innermostOf? .functionDefinition above <;> rfl
      all_goals simpa using ih

end Site

/-! ### The open scopes at a site -/

/-- The open scopes of a docket are those of the definitions around a place. -/
def Docket.Holds (k : ScopeKind) (above : List Ancestor) (d : Docket) : Prop :=
  names d.pending = (definitionsAbove k above).map fun e => nameOf e.node

theorem names_after (d : Docket) (x : ScopeScore) (ss : List Scope) :
    names (d.after x ss).pending = names d.pending := by
  show names (Walker.onInnermost (gain x) d.pending) = names d.pending
  cases d.pending <;> rfl

/-- Entering a node leads to the place below it. -/
theorem holds_enter {k : ScopeKind} {n : Node} {above : List Ancestor} {d : Docket}
    (h : Docket.Holds k above d) (i : Nat) :
    Docket.Holds k (⟨n, i⟩ :: above) ((Site.enterActs ⟨n, above⟩).foldl (Docket.perform k) d) := by
  unfold Docket.Holds at h ⊢
  rw [definitionsAbove]
  by_cases hn : n.kind = k.definition
  · rw [if_pos hn, docket_open (by exact hn), List.map_cons, ← h]
    rfl
  · rw [if_neg hn, docket_enter (by exact hn), names_after, h]

/-- Going through a part of the tree leaves the same scopes open. -/
theorem holds_tour {k : ScopeKind} {above : List Ancestor} {d : Docket}
    (h : Docket.Holds k above d) (above' : List Ancestor) (n : Node) :
    Docket.Holds k above ((tourActs above' n).foldl (Docket.perform k) d) := by
  unfold Docket.Holds at h ⊢
  rw [docket_tour k above' n d, names_after, h]

/-- The tour of a part of a tree comes to a site with the scopes of the definitions around it
open. -/
def Opens (above : List Ancestor) (vs : List Visit) (p : Site) : Prop :=
  ∃ pre post, vs = pre ++ .enter p :: post ∧
    ∀ (k : ScopeKind) (d : Docket), Docket.Holds k above d →
      Docket.Holds k p.above ((pre.flatMap Visit.acts).foldl (Docket.perform k) d)

theorem opens_below {n : Node} {above : List Ancestor} {cs : List Node} {p : Site}
    (h : ∀ c ∈ cs, ∀ i, p ∈ sitesFrom (⟨n, i⟩ :: above) c →
      Opens (⟨n, i⟩ :: above) (tourFrom (⟨n, i⟩ :: above) c) p) {i : Nat}
    (hp : p ∈ sitesBelow n above i cs) :
    Opens (⟨n, 0⟩ :: above) (tourBelow n above i cs) p := by
  induction cs generalizing i with
  | nil =>
      rw [sitesBelow_nil] at hp
      cases hp
  | cons c cs ih =>
      rw [sitesBelow_cons, List.mem_append] at hp
      rw [tourBelow_cons]
      rcases hp with hp | hp
      · obtain ⟨pre, post, htour, hholds⟩ := h c List.mem_cons_self i hp
        exact ⟨pre, post ++ tourBelow n above (i + 1) cs, by rw [htour, List.append_assoc]; rfl,
          hholds⟩
      · obtain ⟨pre, post, htour, hholds⟩ := ih (fun d hd => h d (List.mem_cons_of_mem c hd)) hp
        refine ⟨tourFrom (⟨n, i⟩ :: above) c ++ pre, post, by rw [htour, List.append_assoc], ?_⟩
        intro k d hd
        rw [List.flatMap_append, List.foldl_append]
        exact hholds k _ (holds_tour hd (⟨n, i⟩ :: above) c)

theorem opens_from {above : List Ancestor} {n : Node} {p : Site} (hp : p ∈ sitesFrom above n) :
    Opens above (tourFrom above n) p := by
  induction n using Tree.childInduction generalizing above with
  | node n ih =>
      rw [sitesFrom_eq, List.mem_cons] at hp
      rw [tourFrom_eq]
      rcases hp with rfl | hp
      · exact ⟨[], _, rfl, fun k d hd => hd⟩
      · obtain ⟨pre, post, htour, hholds⟩ := opens_below (fun c hc i hp => ih c hc hp) hp
        refine ⟨.enter ⟨n, above⟩ :: pre, post ++ [.leave ⟨n, above⟩], ?_, ?_⟩
        · rw [htour]
          simp
        · intro k d hd
          rw [List.flatMap_cons, List.foldl_append]
          exact hholds k _ (holds_enter hd 0)

/-- **The open scopes at a site** are those of the definitions around it, innermost first. -/
theorem scopes_at {t : Node} {p : Site} (hp : p ∈ sites t) :
    ∃ pre post, tour t = pre ++ .enter p :: post ∧ ∀ k : ScopeKind,
      names (k.scopes ((pre.flatMap Visit.acts).foldl Ledger.perform (Walker.ledger .initial))) =
        (p.around k).map fun e => nameOf e.node := by
  obtain ⟨pre, post, htour, hholds⟩ := opens_from hp
  refine ⟨pre, post, htour, fun k => ?_⟩
  rw [← ((records_initial k).run _).pending]
  exact hholds k ⟨[], []⟩ rfl

/-! ### The path of an operator -/

/-- An operator adds one path, to the scope of the payer alone: what the ledger is before and
after. -/
structure Pays (payer : Option (ScopeKind × Site)) (l l' : Ledger) : Prop where
  total : l'.result = l.result.addPaths 1
  paid : ∀ k d, payer = some (k, d) → ∃ s ss, s.name = nameOf d.node ∧
    k.scopes l = s :: ss ∧ k.scopes l' = s.addPaths 1 :: ss
  kept : ∀ k, payer.map Prod.fst ≠ some k → k.scopes l' = k.scopes l

/-- The path goes to the innermost open scope of its kind. -/
theorem pays_innermost {k : ScopeKind} {d : Site} {s : Scope} {ss : List Scope} {l : Ledger}
    (hname : s.name = nameOf d.node) (hscopes : k.scopes l = s :: ss) :
    Pays (some (k, d)) l (l.perform (.path (k == .methods))) := by
  have hpaid : k.scopes (l.perform (.path (k == .methods))) = s.addPaths 1 :: ss := by
    cases k <;> exact congrArg (Walker.onInnermost _) hscopes
  refine ⟨by cases k <;> rfl, fun k' d' hpayer => ?_, fun k' hk' => ?_⟩
  · obtain ⟨rfl, rfl⟩ := Prod.mk.inj (Option.some.inj hpayer)
    exact ⟨s, ss, hname, hscopes, hpaid⟩
  · have hne : k ≠ k' := fun h => hk' (congrArg some h)
    cases k <;> cases k' <;> first | rfl | exact absurd rfl hne

/-- Where no scope is open, no scope pays. -/
theorem pays_nobody {l : Ledger} (hclasses : l.classes = []) :
    Pays none l (l.perform (.path false)) := by
  refine ⟨rfl, fun k d hpayer => (by cases hpayer), fun k _ => ?_⟩
  cases k with
  | methods => rfl
  | classes =>
      show Walker.onInnermost _ l.classes = l.classes
      rw [hclasses]
      rfl

theorem head_of_names {k : ScopeKind} {p d : Site} {l : Ledger}
    (hnames : names (k.scopes l) = (p.around k).map fun e => nameOf e.node)
    (hd : p.innermost? k.definition = some d) :
    ∃ s ss, s.name = nameOf d.node ∧ k.scopes l = s :: ss := by
  have hhead : (p.around k).head? = some d := by
    rw [Site.around, ← innermostOf?_eq_head?]
    exact hd
  obtain ⟨ds, hds⟩ := List.head?_eq_some_iff.mp hhead
  rw [hds, List.map_cons] at hnames
  obtain ⟨s, ss, hscopes, hname, -⟩ := List.map_eq_cons_iff.mp hnames
  exact ⟨s, ss, hname, hscopes⟩

/-- The path of an operator goes to the scope of its payer. -/
theorem pays_of_names {p : Site} {l : Ledger}
    (hnames : ∀ k : ScopeKind, names (k.scopes l) = (p.around k).map fun e => nameOf e.node) :
    Pays p.payer? l (l.perform (.path (p.innermost? .functionDefinition).isSome)) := by
  unfold Site.payer?
  cases hf : p.innermost? .functionDefinition with
  | some f =>
      obtain ⟨s, ss, hname, hscopes⟩ := head_of_names (hnames .methods) hf
      exact pays_innermost hname hscopes
  | none =>
      cases hc : p.innermost? .classDefinition with
      | some c =>
          obtain ⟨s, ss, hname, hscopes⟩ := head_of_names (hnames .classes) hc
          exact pays_innermost hname hscopes
      | none =>
          have hnil : p.around .classes = [] := by
            rw [← List.head?_eq_none_iff, Site.around, ← innermostOf?_eq_head?]
            exact hc
          have hnames := hnames .classes
          rw [hnil] at hnames
          exact pays_nobody (List.map_eq_nil_iff.mp hnames)

/-! ### What the operators come to -/

/-- Whether a definition pays for the operator at a site. -/
def paysFor (k : ScopeKind) (d p : Site) : Bool :=
  p.isFreeOperator && p.payer?.any fun (kind, e) => kind == k && e.address == d.address

theorem paysFor_eq (k : ScopeKind) (d p : Site) :
    paysFor k d p = (p.addsPathTo k && p.owner? k == some d.address) := by
  have hkinds : (ScopeKind.classes == ScopeKind.methods) = false ∧
      (ScopeKind.methods == ScopeKind.classes) = false := ⟨rfl, rfl⟩
  unfold paysFor Site.addsPathTo Site.owner? Site.payer?
  cases k with
  | methods =>
      simp only [ScopeKind.definition]
      cases p.innermost? .functionDefinition with
      | some f => simp
      | none => cases p.innermost? .classDefinition <;> simp
  | classes =>
      simp only [ScopeKind.definition]
      cases p.innermost? .functionDefinition with
      | some f => simp [hkinds]
      | none => cases p.innermost? .classDefinition <;> simp [hkinds]

/-- Every definition closes with one path of its own, one for each of its constructs and one for
each operator it pays for. -/
theorem closed_ccs (k : ScopeKind) {t : Node} (h : Shaped t) :
    (k.closed [.visit t] .initial).map (fun s => (s.name, s.score.cc)) =
      (definitions k (sitesLeft t)).map fun d => (nameOf d.node,
        1 + (ownSites k t d).countP Site.isConstruct + (sites t).countP (paysFor k d)) := by
  rw [closed_root k h, List.map_map]
  refine List.map_congr_left fun d _ => ?_
  have hpaid : (ownSites k t d).countP (Site.addsPathTo k) =
      (sites t).countP (paysFor k d) := by
    rw [ownSites, ownedBy, List.countP_filter]
    exact congrArg (List.countP · (sites t)) (funext fun p => (paysFor_eq k d p).symm)
  rw [← hpaid, Nat.add_assoc]
  rfl

/-- **Every boolean operator outside all scored conditions has one payer.**  When the walk comes to
it, each of the two stacks holds the definitions of its kind around it, and the path goes to the
total and to the scope of the payer alone; so every definition closes with one path for each
operator it pays for.  The payer is the innermost definition around the operator, or nobody where
there is none; only if that is a class with a function around it, the innermost function pays. -/
theorem operators_charged {t : Node} (h : Grammatical t) :
    (∀ p ∈ sites t, p.isFreeOperator = true → ∃ pre post,
      tour t = pre ++ .enter p :: post ∧
      acts [.visit t] .initial = pre.flatMap Visit.acts ++
        .path (p.innermost? .functionDefinition).isSome :: post.flatMap Visit.acts ∧
      let l := (pre.flatMap Visit.acts).foldl Ledger.perform (Walker.ledger .initial)
      (∀ k : ScopeKind, names (k.scopes l) = (p.around k).map fun d => nameOf d.node) ∧
      Pays p.payer? l (l.perform (.path (p.innermost? .functionDefinition).isSome))) ∧
    (∀ k : ScopeKind, (k.closed [.visit t] .initial).map (fun s => (s.name, s.score.cc)) =
      (definitions k (sitesLeft t)).map fun d => (nameOf d.node,
        1 + (ownSites k t d).countP Site.isConstruct + (sites t).countP (paysFor k d))) ∧
    ∀ p ∈ sites t, p.payer? =
      match p.innermostDefinition? with
      | some (.classes, c) =>
        match c.innermost? .functionDefinition with
        | some f => some (.methods, f)
        | none => some (.classes, c)
      | o => o := by
  refine ⟨fun p hp hfree => ?_, fun k => closed_ccs k h.shaped, fun p _ => p.payer?_eq⟩
  obtain ⟨pre, post, htour, hnames⟩ := scopes_at hp
  refine ⟨pre, post, htour, ?_, hnames, pays_of_names hnames⟩
  have henter : p.enterActs = [.path (p.innermost? .functionDefinition).isSome] := by
    rw [Site.isFreeOperator, Bool.and_eq_true, beq_iff_eq] at hfree
    rw [Site.enterActs, hfree.1]
    exact if_pos hfree.2
  rw [acts_root h.shaped, htour, List.flatMap_append, List.flatMap_cons, Visit.acts, henter]
  rfl

/-- The operator `x or y`. -/
def eitherAt (row : Nat) : Node :=
  .node .booleanOperator none row "" [
    .node .identifier (some .left) row "x" [], .node .mark (some .operator) row "or" [],
    .node .identifier (some .right) row "y" []]

/-- A definition with a body. -/
def definitionOf (k : ScopeKind) (name : String) (row : Nat) (body : List Node) : Node :=
  .node k.definition none row "" [
    .node .identifier (some .name) row name [], .node .phrase (some .body) (row + 1) "" body]

/-- A class in a function, a class with a function in it, and operators in all of them and
outside. -/
def scattered : Node :=
  .node .phrase none 0 "" [
    definitionOf .methods "f" 0 [definitionOf .classes "A" 1 [eitherAt 2], eitherAt 3],
    definitionOf .classes "B" 4 [definitionOf .methods "g" 5 [eitherAt 6], eitherAt 7],
    eitherAt 8]

/-- The class in the function pays for nothing, the function for both its operators. -/
theorem operators_charged_scattered : Shaped scattered ∧
    ((sites scattered).filter Site.isFreeOperator).map
        (fun p => p.payer?.map fun (_, d) => nameOf d.node) =
      [some "f", some "f", some "g", some "B", none] ∧
    (ScopeKind.methods.closed [.visit scattered] .initial).map
      (fun s => (s.name, s.score.cc)) = [("f", 3), ("g", 2)] ∧
    (ScopeKind.classes.closed [.visit scattered] .initial).map
      (fun s => (s.name, s.score.cc)) = [("A", 1), ("B", 2)] := by
  have hshaped : Shaped scattered := by decide
  obtain ⟨-, hclosed, -⟩ := operators_charged (.inr hshaped)
  refine ⟨hshaped, by decide, ?_, ?_⟩
  · rw [hclosed]
    decide +kernel
  · rw [hclosed]
    decide +kernel

/-- A class in a function, with an operator in the body of the class. -/
def localClass : Node :=
  .node .phrase none 0 "" [definitionOf .methods "f" 0 [definitionOf .classes "A" 1 [eitherAt 2]]]

/-- The innermost definition around the operator is the class, but the function pays. -/
theorem local_class_not_charged : Shaped localClass ∧
    ((sites localClass).filter Site.isFreeOperator).map
        (fun p => p.innermostDefinition?.map fun (k, d) => (k, nameOf d.node)) =
      [some (.classes, "A")] ∧
    (breakdown localClass).classes.get? "A" = some ⟨0, 1⟩ ∧
    (breakdown localClass).methods.get? "f" = some ⟨0, 2⟩ := by
  have hshaped : Shaped localClass := by decide
  refine ⟨hshaped, by decide, ?_, ?_⟩
  · have hstored := get?_stored .classes hshaped "A"
    refine hstored.trans ?_
    decide +kernel
  · have hstored := get?_stored .methods hshaped "f"
    refine hstored.trans ?_
    decide +kernel

end DecisionScore.Python
