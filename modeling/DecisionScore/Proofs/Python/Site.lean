import Mathlib.Algebra.BigOperators.Group.List.Basic
import Mathlib.Algebra.GroupWithZero.Nat
import DecisionScore.Python.Walk

/-! # Sites in a Python tree

A `Site` is a node of a tree together with the way down to it.  What the score of a construct
depends on is a matter of its site alone, and is said here without reference to any walk:

* `Site.level`: an `if`, `while` or `for` statement opens one level for itself and for all that is
  below it; the `j`-th `elif` clause of an `if` statement opens `j` more, and its `else` clause as
  many more as there are `elif` clauses;
* `Site.contribution`: the level, at least one, times the weight of the construct times the weight
  of its condition;
* `Site.isFree`: whether the site is outside every scored condition;
* `Site.innermost?`: the innermost definition of a kind around the site.

`tour` goes through a tree and enters and leaves every site; `sites` are the sites in the order
in which they are entered, `sitesLeft` in the order in which they are left.  The first is the order
of the paths that lead to the sites from the root (`pairwise_sitesFrom`). -/

namespace DecisionScore

/-- A child has fewer nodes than its parent. -/
theorem Tree.size_lt_of_mem {κ ρ : Type} {t c : Tree κ ρ} (h : c ∈ t.children) :
    c.size < t.size := by
  have := size_le_sizes h
  have := size_eq t
  omega

/-- Induction from the children of a node to the node. -/
@[elab_as_elim]
theorem Tree.childInduction {κ ρ : Type} {motive : Tree κ ρ → Prop}
    (node : ∀ t, (∀ c ∈ t.children, motive c) → motive t) (t : Tree κ ρ) : motive t :=
  node t fun c hc =>
    have := size_lt_of_mem hc
    childInduction node c
termination_by t.size

namespace Python

/-- A node above another one, and the number of the child that leads down to it. -/
structure Ancestor where
  node : Node
  child : Nat

/-- A node of a tree, with the nodes above it, innermost first. -/
structure Site where
  node : Node
  above : List Ancestor

/-! ### Scored conditions -/

/-- The number of the first child in a role. -/
def childIndex? (n : Node) (r : Role) : Option Nat :=
  n.children.findIdx? fun c => c.role == some r

/-- The number of the `j`-th named node of a list, counted from zero. -/
def namedIndex? (j : Nat) (cs : List Node) : Option Nat :=
  ((cs.zipIdx.filter (·.1.kind.isNamed))[j]?).map (·.2)

/-- The number of the child that is the scored condition of a node. -/
def conditionIndex? (n : Node) : Option Nat :=
  match n.kind with
  | .ifStatement | .elifClause | .whileStatement => childIndex? n .condition
  | .conditionalExpression => namedIndex? 1 n.children
  | _ => none

/-- The scored condition of a node. -/
def condition? (n : Node) : Option Node := (conditionIndex? n).bind (n.children[·]?)

/-- The part of a construct in which nested constructs are looked for. -/
def body? (n : Node) : Option Node :=
  match n.kind with
  | .ifStatement | .elifClause => n.child? .consequence
  | .whileStatement | .forStatement | .tryStatement => n.child? .body
  | _ => none

theorem getElem?_childIndex? (n : Node) (r : Role) :
    (childIndex? n r).bind (n.children[·]?) = n.child? r := by
  unfold childIndex? Tree.child?
  induction n.children with
  | nil => rfl
  | cons c cs ih =>
      rw [List.findIdx?_cons, List.find?_cons]
      cases c.role == some r with
      | true => rfl
      | false => simpa [Option.bind_map, Function.comp_def] using ih

theorem getElem?_namedIndex? (n : Node) :
    (namedIndex? 1 n.children).bind (n.children[·]?) = Walk.secondNamed? n := by
  unfold namedIndex? Walk.secondNamed?
  have hmap : (n.children.zipIdx.filter (·.1.kind.isNamed)).map (·.1)
      = n.children.filter (·.kind.isNamed) := by
    rw [show (fun x : Node × Nat => x.1.kind.isNamed) = (·.kind.isNamed) ∘ Prod.fst from rfl,
      ← List.filter_map, List.zipIdx_map_fst]
  rw [← hmap, List.getElem?_map]
  cases h : (n.children.zipIdx.filter (·.1.kind.isNamed))[1]? with
  | none => rfl
  | some x =>
      have hx : x ∈ n.children.zipIdx := List.mem_of_mem_filter (List.mem_of_getElem? h)
      simpa using List.mem_zipIdx_iff_getElem?.mp hx

/-- The scored condition is the child in the role of condition, or the second named child of a
conditional expression. -/
theorem condition?_eq (n : Node) :
    condition? n = match n.kind with
      | .ifStatement | .elifClause | .whileStatement => n.child? .condition
      | .conditionalExpression => Walk.secondNamed? n
      | _ => none := by
  unfold condition? conditionIndex?
  cases n.kind
  case ifStatement => exact getElem?_childIndex? n .condition
  case elifClause => exact getElem?_childIndex? n .condition
  case whileStatement => exact getElem?_childIndex? n .condition
  case conditionalExpression => exact getElem?_namedIndex? n
  all_goals rfl

/-! ### Levels -/

/-- The level a statement opens for itself and for all that is below it. -/
def ownLevel : Kind → Nat
  | .ifStatement | .whileStatement | .forStatement => 1
  | _ => 0

/-- Whether a node is an `elif` clause. -/
def isElif (n : Node) : Bool := n.kind == .elifClause

/-- The further levels a clause of an `if` statement stands at: as many as there are `elif` clauses
up to it. -/
def clauseLevel (n : Node) (i : Nat) : Nat :=
  match n.kind, (n.children[i]?).map Tree.kind with
  | .ifStatement, some .elifClause => (n.children.take (i + 1)).countP isElif
  | .ifStatement, some .elseClause => n.children.countP isElif
  | _, _ => 0

namespace Ancestor

/-- The levels an ancestor adds to what is below it. -/
def levels (a : Ancestor) : Nat := ownLevel a.node.kind + clauseLevel a.node a.child

/-- Whether the way down leads into the scored condition of the ancestor. -/
def isCondition (a : Ancestor) : Bool := conditionIndex? a.node == some a.child

end Ancestor

/-- The level of all that is directly below the ancestors. -/
def levelBelow (above : List Ancestor) : Nat := (above.map Ancestor.levels).sum

/-- The number of scored conditions around all that is directly below the ancestors. -/
def conditionsAround (above : List Ancestor) : Nat := above.countP Ancestor.isCondition

/-- The innermost of the ancestors that has the given kind. -/
def innermostOf? (k : Kind) : List Ancestor → Option Site
  | [] => none
  | a :: above => if a.node.kind = k then some ⟨a.node, above⟩ else innermostOf? k above

namespace Site

/-- The numbers of the children that lead to the site, innermost first. -/
def address (p : Site) : List Nat := p.above.map (·.child)

/-- The level of a site. -/
def level (p : Site) : Nat := levelBelow p.above + ownLevel p.node.kind

/-- Whether the site is outside every scored condition. -/
def isFree (p : Site) : Bool := p.above.all fun a => !a.isCondition

/-- The innermost node of the given kind around a site. -/
def innermost? (k : Kind) (p : Site) : Option Site := innermostOf? k p.above

/-- Whether the node is a construct. -/
def isConstruct (p : Site) : Bool := p.node.kind.construct?.isSome

/-- Whether the node is a boolean operator outside every scored condition. -/
def isFreeOperator (p : Site) : Bool := p.node.kind == .booleanOperator && p.isFree

/-- The token weight of the scored condition, bare where there is none. -/
def tokens (p : Site) : TokenWeight :=
  match condition? p.node with
  | none => .bare
  | some c => Condition.weight c

/-- What the node contributes to the decisional complexity. -/
def contribution (p : Site) : Nat :=
  match p.node.kind.construct? with
  | none => 0
  | some k => max p.level 1 * k.baseWeight * p.tokens.total

end Site

theorem isFree_iff (p : Site) : p.isFree = true ↔ conditionsAround p.above = 0 := by
  unfold Site.isFree conditionsAround
  rw [List.countP_eq_zero, List.all_eq_true]
  simp

/-! ### The tour of a tree -/

/-- A moment of a tour. -/
inductive Visit where
  | enter (p : Site)
  | leave (p : Site)

namespace Visit

/-- The site entered. -/
def entered? : Visit → Option Site
  | enter p => some p
  | leave _ => none

/-- The site left. -/
def left? : Visit → Option Site
  | enter _ => none
  | leave p => some p

theorem filterMap_entered?_enter (p : Site) (vs : List Visit) :
    (enter p :: vs).filterMap entered? = p :: vs.filterMap entered? := rfl

theorem filterMap_entered?_leave (p : Site) (vs : List Visit) :
    (leave p :: vs).filterMap entered? = vs.filterMap entered? := rfl

end Visit

mutual

/-- The tour of a node below the given ancestors, and of all that is below it. -/
def tourFrom (above : List Ancestor) : Node → List Visit
  | .node k r row s cs =>
    .enter ⟨.node k r row s cs, above⟩ ::
      (tourBelow (.node k r row s cs) above 0 cs ++ [.leave ⟨.node k r row s cs, above⟩])

/-- The tour of the children of a node from number `i` on. -/
def tourBelow (n : Node) (above : List Ancestor) (i : Nat) : List Node → List Visit
  | [] => []
  | c :: cs => tourFrom (⟨n, i⟩ :: above) c ++ tourBelow n above (i + 1) cs

end

/-- The tour of a tree. -/
def tour (t : Node) : List Visit := tourFrom [] t

/-- The sites of a tree in document order: every node after those above it and before those to
its right. -/
def sites (t : Node) : List Site := (tour t).filterMap Visit.entered?

/-- The sites of a tree in the order in which they are left: every node after those below it. -/
def sitesLeft (t : Node) : List Site := (tour t).filterMap Visit.left?

theorem tourFrom_eq (above : List Ancestor) (n : Node) :
    tourFrom above n =
      .enter ⟨n, above⟩ :: (tourBelow n above 0 n.children ++ [.leave ⟨n, above⟩]) := by
  cases n
  rw [tourFrom]
  rfl

@[simp] theorem tourBelow_nil (n : Node) (above : List Ancestor) (i : Nat) :
    tourBelow n above i [] = [] := by rw [tourBelow]

@[simp] theorem tourBelow_cons (n : Node) (above : List Ancestor) (i : Nat) (c : Node)
    (cs : List Node) : tourBelow n above i (c :: cs) =
      tourFrom (⟨n, i⟩ :: above) c ++ tourBelow n above (i + 1) cs := by rw [tourBelow]

theorem tourBelow_append (n : Node) (above : List Ancestor) (i : Nat) (cs ds : List Node) :
    tourBelow n above i (cs ++ ds) =
      tourBelow n above i cs ++ tourBelow n above (i + cs.length) ds := by
  induction cs generalizing i with
  | nil => simp
  | cons c cs ih => simp [ih, Nat.add_assoc, Nat.add_comm 1]

/-! ### The sites of a part of a tree -/

/-- The sites at and below a node, in document order. -/
def sitesFrom (above : List Ancestor) (n : Node) : List Site :=
  (tourFrom above n).filterMap Visit.entered?

/-- The sites at and below the children of a node from number `i` on, in document order. -/
def sitesBelow (n : Node) (above : List Ancestor) (i : Nat) (cs : List Node) : List Site :=
  (tourBelow n above i cs).filterMap Visit.entered?

/-- The sites at and below a node, in the order in which they are left. -/
def leftFrom (above : List Ancestor) (n : Node) : List Site :=
  (tourFrom above n).filterMap Visit.left?

/-- The sites at and below the children of a node from number `i` on, in the order in which they
are left. -/
def leftBelow (n : Node) (above : List Ancestor) (i : Nat) (cs : List Node) : List Site :=
  (tourBelow n above i cs).filterMap Visit.left?

theorem sitesFrom_eq (above : List Ancestor) (n : Node) :
    sitesFrom above n = ⟨n, above⟩ :: sitesBelow n above 0 n.children := by
  unfold sitesFrom sitesBelow
  rw [tourFrom_eq, Visit.filterMap_entered?_enter, List.filterMap_append]
  exact congrArg (List.cons _) (List.append_nil _)

theorem leftFrom_eq (above : List Ancestor) (n : Node) :
    leftFrom above n = leftBelow n above 0 n.children ++ [⟨n, above⟩] := by
  unfold leftFrom leftBelow
  rw [tourFrom_eq, List.filterMap_cons, List.filterMap_append]
  rfl

@[simp] theorem sitesBelow_nil (n : Node) (above : List Ancestor) (i : Nat) :
    sitesBelow n above i [] = [] := by simp [sitesBelow]

@[simp] theorem leftBelow_nil (n : Node) (above : List Ancestor) (i : Nat) :
    leftBelow n above i [] = [] := by simp [leftBelow]

theorem sitesBelow_cons (n : Node) (above : List Ancestor) (i : Nat) (c : Node) (cs : List Node) :
    sitesBelow n above i (c :: cs) =
      sitesFrom (⟨n, i⟩ :: above) c ++ sitesBelow n above (i + 1) cs := by
  simp [sitesBelow, sitesFrom]

theorem leftBelow_cons (n : Node) (above : List Ancestor) (i : Nat) (c : Node) (cs : List Node) :
    leftBelow n above i (c :: cs) =
      leftFrom (⟨n, i⟩ :: above) c ++ leftBelow n above (i + 1) cs := by
  simp [leftBelow, leftFrom]

theorem leftBelow_perm_of_mem {n : Node} {above : List Ancestor} {cs : List Node}
    (h : ∀ c ∈ cs, ∀ above, (leftFrom above c).Perm (sitesFrom above c)) (i : Nat) :
    (leftBelow n above i cs).Perm (sitesBelow n above i cs) := by
  induction cs generalizing i with
  | nil => simp
  | cons c cs ih =>
      rw [leftBelow_cons, sitesBelow_cons]
      exact (h c List.mem_cons_self _).append (ih (fun d hd => h d (List.mem_cons_of_mem c hd)) _)

/-- What is entered is left. -/
theorem leftFrom_perm (above : List Ancestor) (n : Node) :
    (leftFrom above n).Perm (sitesFrom above n) := by
  induction n using Tree.childInduction generalizing above with
  | node n ih =>
      rw [leftFrom_eq, sitesFrom_eq]
      exact List.perm_append_comm.trans (List.Perm.cons _ (leftBelow_perm_of_mem ih 0))

theorem leftBelow_perm (n : Node) (above : List Ancestor) (i : Nat) (cs : List Node) :
    (leftBelow n above i cs).Perm (sitesBelow n above i cs) :=
  leftBelow_perm_of_mem (fun c _ above => leftFrom_perm above c) i

/-! ### Addresses -/

/-- The address that the ancestors lead to. -/
def addressOf (above : List Ancestor) : List Nat := above.map (·.child)

theorem suffix_above_of_mem {above : List Ancestor} {n : Node} {p : Site}
    (h : p ∈ sitesFrom above n) : above <:+ p.above := by
  induction n using Tree.childInduction generalizing above with
  | node n ih =>
      have hbelow : ∀ (cs : List Node) (i : Nat), (∀ c ∈ cs, c ∈ n.children) →
          p ∈ sitesBelow n above i cs → above <:+ p.above := by
        intro cs
        induction cs with
        | nil => simp
        | cons c cs ihs =>
            intro i hcs hp
            rw [sitesBelow_cons, List.mem_append] at hp
            rcases hp with hp | hp
            · exact (List.suffix_cons _ _).trans (ih c (hcs c List.mem_cons_self) hp)
            · exact ihs _ (fun d hd => hcs d (List.mem_cons_of_mem c hd)) hp
      rw [sitesFrom_eq, List.mem_cons] at h
      rcases h with rfl | h
      · exact List.suffix_rfl
      · exact hbelow _ 0 (fun c hc => hc) h

theorem suffix_of_mem_sitesFrom {above : List Ancestor} {n : Node} {p : Site}
    (h : p ∈ sitesFrom above n) : addressOf above <:+ p.address :=
  (suffix_above_of_mem h).map _

theorem exists_of_mem_sitesBelow {n : Node} {above : List Ancestor} {i : Nat} {cs : List Node}
    {p : Site} (h : p ∈ sitesBelow n above i cs) :
    ∃ j c, i ≤ j ∧ c ∈ cs ∧ p ∈ sitesFrom (⟨n, j⟩ :: above) c := by
  induction cs generalizing i with
  | nil => simp at h
  | cons c cs ih =>
      rw [sitesBelow_cons, List.mem_append] at h
      rcases h with h | h
      · exact ⟨i, c, Nat.le_refl i, List.mem_cons_self, h⟩
      · obtain ⟨j, d, hj, hd, hp⟩ := ih h
        exact ⟨j, d, by omega, List.mem_cons_of_mem c hd, hp⟩

/-- Two children of a node have no address below them in common. -/
theorem eq_of_suffix_cons {i j : Nat} {as bs : List Nat} (hi : i :: as <:+ bs)
    (hj : j :: as <:+ bs) : i = j := by
  have h := List.suffix_of_suffix_length_le hi hj (by simp)
  have := h.eq_of_length (by simp)
  exact (List.cons.inj this).1

/-! ### Document order -/

/-- The numbers of the children that lead from the root of a tree down to a site. -/
def Site.path (p : Site) : List Nat := p.address.reverse

theorem exists_path_eq {as : List Nat} {p : Site} (h : as <:+ p.address) :
    ∃ rest, p.path = as.reverse ++ rest := by
  obtain ⟨rest, hrest⟩ := h
  refine ⟨rest.reverse, ?_⟩
  rw [Site.path, ← hrest, List.reverse_append]

/-- The sites below children of a node from number `i` on. -/
theorem exists_path_of_mem_sitesBelow {n : Node} {above : List Ancestor} {i : Nat}
    {cs : List Node} {p : Site} (h : p ∈ sitesBelow n above i cs) :
    ∃ j rest, i ≤ j ∧ p.path = (addressOf above).reverse ++ j :: rest := by
  obtain ⟨j, c, hj, -, hp⟩ := exists_of_mem_sitesBelow h
  obtain ⟨rest, hrest⟩ := exists_path_eq (suffix_of_mem_sitesFrom hp)
  refine ⟨j, rest, hj, hrest.trans ?_⟩
  rw [addressOf, List.map_cons, List.reverse_cons, List.append_assoc]
  rfl

/-- A node comes before what is below it, and what is below one child before what is below the
next. -/
theorem pairwise_sitesFrom (above : List Ancestor) (n : Node) :
    (sitesFrom above n).Pairwise fun p q => p.path < q.path := by
  induction n using Tree.childInduction generalizing above with
  | node n ih =>
      have hbelow : ∀ (cs : List Node) (i : Nat), (∀ c ∈ cs, c ∈ n.children) →
          (sitesBelow n above i cs).Pairwise fun p q => p.path < q.path := by
        intro cs
        induction cs with
        | nil => simp
        | cons c cs ihs =>
            intro i hcs
            rw [sitesBelow_cons, List.pairwise_append]
            refine ⟨ih c (hcs c List.mem_cons_self) _,
              ihs _ fun d hd => hcs d (List.mem_cons_of_mem c hd), ?_⟩
            intro p hp q hq
            obtain ⟨as, hpath⟩ := exists_path_eq (suffix_of_mem_sitesFrom hp)
            obtain ⟨j, rest, hj, hpath'⟩ := exists_path_of_mem_sitesBelow hq
            rw [hpath, hpath', addressOf, List.map_cons, List.reverse_cons, List.append_assoc]
            apply List.append_left_lt
            exact List.cons_lt_cons_iff.mpr (.inl hj)
      rw [sitesFrom_eq, List.pairwise_cons]
      refine ⟨fun q hq => ?_, hbelow _ 0 fun c hc => hc⟩
      obtain ⟨j, rest, -, hpath⟩ := exists_path_of_mem_sitesBelow hq
      have hself : (Site.mk n above).path = (addressOf above).reverse ++ [] :=
        (List.append_nil _).symm
      rw [hself, hpath]
      apply List.append_left_lt
      exact List.nil_lt_cons j rest

/-- No two sites have the same address. -/
theorem nodup_sitesFrom (above : List Ancestor) (n : Node) :
    ((sitesFrom above n).map Site.address).Nodup := by
  rw [List.Nodup, List.pairwise_map]
  refine (pairwise_sitesFrom above n).imp fun {p q} hlt haddress => ?_
  rw [Site.path, Site.path, haddress] at hlt
  exact List.lt_irrefl _ hlt

end Python

end DecisionScore
