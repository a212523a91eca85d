import DecisionScore.Proofs.Python.Nesting

/-! # The search beneath a node

What is beneath a node can be searched with a cursor that knows three moves: down to the first
child, right to the next sibling and up to the parent.  The search looks at every node the cursor
comes to from above or from the left, and it is over when the cursor is back at the node it started
beneath.

`Search.next` is one move.  It keeps the cursor beneath the start, and what is found together with
what is ahead stays the same, while less is left to do (`Search.Progress`).  So the search ends, and
has found what `constructs` lists (`Search.start_ends`). -/

namespace DecisionScore.Python

/-! ### Moves of a cursor -/

namespace Site

/-- The first child. -/
def firstChild? (p : Site) : Option Site := p.child? 0

/-- The next child of the same parent. -/
def nextSibling? (p : Site) : Option Site :=
  match p.above with
  | [] => none
  | a :: above => child? ⟨a.node, above⟩ (a.child + 1)

/-- The parent. -/
def parent? (p : Site) : Option Site :=
  match p.above with
  | [] => none
  | a :: above => some ⟨a.node, above⟩

end Site

/-- A moment of a search, with the constructs found up to it. -/
inductive Search where
  /-- The cursor has come to a node and has not looked at it. -/
  | arriving (p : Site) (found : List Construct)
  /-- The cursor is done with a node and with all that is beneath it. -/
  | leaving (p : Site) (found : List Construct)
  | done (found : List Construct)

namespace Search

/-- The start of a search beneath a node. -/
def start (root : Site) : Search :=
  match root.firstChild? with
  | none => done []
  | some c => arriving c []

/-- One move of a search. -/
def next (root : Site) : Search → Search
  | arriving p found =>
    let found := found ++ p.node.kind.construct?.toList
    match p.firstChild? with
    | some c => arriving c found
    | none => leaving p found
  | leaving p found =>
    match p.nextSibling? with
    | some q => arriving q found
    | none =>
      match p.parent? with
      | none => done found
      | some q => if q.address = root.address then done found else leaving q found
  | done found => done found

/-! ### What is ahead -/

/-- The siblings to the right on the way down. -/
def later (a : Ancestor) : List Node := a.node.children.drop (a.child + 1)

/-- The siblings ahead on each level beneath the root, innermost first. -/
def levels (root : Site) (above : List Ancestor) : Nesting.Levels :=
  (above.take (above.length - root.above.length)).map later

variable {root : Site}

theorem levels_self : levels root root.above = [] := by
  simp [levels]

theorem levels_cons {above : List Ancestor} (h : root.above <:+ above) (a : Ancestor) :
    levels root (a :: above) = later a :: levels root above := by
  have hlength := h.length_le
  have hsucc : (a :: above).length - root.above.length =
      above.length - root.above.length + 1 := by
    rw [List.length_cons]
    omega
  rw [levels, hsucc, List.take_succ_cons, List.map_cons]
  rfl

/-- What the search will have found when it is over. -/
def outcome (root : Site) : Search → List Construct
  | arriving p found => found ++ Nesting.ahead ([p.node] :: levels root p.above)
  | leaving p found => found ++ Nesting.ahead (levels root p.above)
  | done found => found

/-- How many moves are left, at most. -/
def remaining (root : Site) : Search → Nat
  | arriving p _ => 2 * p.node.size + Nesting.work (levels root p.above)
  | leaving p _ => Nesting.work (levels root p.above) + 1
  | done _ => 0

/-- Whether a site is beneath the root: it has all ancestors of the root, and at least one more. -/
def Beneath (root p : Site) : Prop := ∃ a above, p.above = a :: above ∧ root.above <:+ above

/-- The cursor is beneath the root. -/
def Inside (root : Site) : Search → Prop
  | arriving p _ => Beneath root p
  | leaving p _ => Beneath root p
  | done _ => True

/-- What every move keeps, and what it takes off. -/
structure Progress (root : Site) (s s' : Search) : Prop where
  inside : s'.Inside root
  outcome : s'.outcome root = s.outcome root
  remaining : s'.remaining root < s.remaining root

/-! ### Moves -/

theorem ahead_cons (n : Node) (siblings : List Node) (up : Nesting.Levels) :
    Nesting.ahead ([n] :: siblings :: up) = Nesting.ahead ((n :: siblings) :: up) := by
  simp [Nesting.ahead_eq]

theorem work_cons (n : Node) (siblings : List Node) (up : Nesting.Levels) :
    2 * n.size + Nesting.work (siblings :: up) = Nesting.work ((n :: siblings) :: up) := by
  simp only [Nesting.work, Tree.sizes_cons]
  omega

/-- The cursor goes down, or is done with a leaf. -/
theorem progress_arriving {p : Site} (h : Beneath root p) (found : List Construct) :
    Progress root (arriving p found) (next root (arriving p found)) := by
  obtain ⟨a, above, hp, hroot⟩ := h
  have habove : root.above <:+ p.above := hp ▸ hroot.trans (List.suffix_cons a above)
  have hsize := p.node.size_eq
  have hahead : ∀ up, Nesting.ahead ([p.node] :: up) =
      p.node.kind.construct?.toList ++ Nesting.ahead (p.node.children :: up) := by
    intro up
    rw [Nesting.ahead, Nesting.ahead_eq, Nesting.ahead_eq]
    simp
  cases hc : p.node.children with
  | nil =>
      have hnext : next root (arriving p found) =
          leaving p (found ++ p.node.kind.construct?.toList) := by
        simp [next, Site.firstChild?, Site.child?, hc]
      rw [hnext]
      refine ⟨⟨a, above, hp, hroot⟩, ?_, ?_⟩
      · simp only [outcome, hahead, hc, Nesting.ahead, List.append_assoc]
      · simp only [remaining]
        omega
  | cons c cs =>
      have hnext : next root (arriving p found) =
          arriving ⟨c, ⟨p.node, 0⟩ :: p.above⟩ (found ++ p.node.kind.construct?.toList) := by
        simp [next, Site.firstChild?, Site.child?, hc]
      have hlater : later ⟨p.node, 0⟩ = cs := by simp [later, hc]
      rw [hnext]
      refine ⟨⟨_, _, rfl, habove⟩, ?_, ?_⟩
      · simp only [outcome, levels_cons habove, hlater, ahead_cons, hahead, hc, List.append_assoc]
      · simp only [remaining, levels_cons habove, hlater, work_cons]
        rw [hc] at hsize
        simp only [Nesting.work]
        omega

/-- Of the sites on the way up, only the root has the address of the root. -/
theorem address_eq_iff {above : List Ancestor} (h : root.above <:+ above) (n : Node) :
    (Site.mk n above).address = root.address ↔ above = root.above := by
  constructor
  · intro haddress
    have hlength : root.above.length = above.length := by
      simpa [Site.address] using (congrArg List.length haddress).symm
    exact (h.eq_of_length hlength).symm
  · intro habove
    rw [Site.address, habove]
    rfl

/-- The cursor goes right, up where there is nothing to the right, and no further up than to the
root. -/
theorem progress_leaving {p : Site} (h : Beneath root p) (found : List Construct) :
    Progress root (leaving p found) (next root (leaving p found)) := by
  obtain ⟨a, above, hp, hroot⟩ := h
  have hlevels : levels root p.above = later a :: levels root above := by
    rw [hp, levels_cons hroot]
  cases hc : a.node.children[a.child + 1]? with
  | some c =>
      have hnext : next root (leaving p found) =
          arriving ⟨c, ⟨a.node, a.child + 1⟩ :: above⟩ found := by
        simp [next, Site.nextSibling?, Site.child?, hp, hc]
      have hlater : later a = c :: later ⟨a.node, a.child + 1⟩ :=
        List.drop_eq_getElem?_toList_append.trans (by rw [hc]; rfl)
      rw [hnext]
      refine ⟨⟨_, _, rfl, hroot⟩, ?_, ?_⟩
      · simp only [outcome, levels_cons hroot, hlevels, hlater, ahead_cons]
      · simp only [remaining, levels_cons hroot, hlevels, hlater, work_cons]
        omega
  | none =>
      have hlater : later a = [] := List.drop_eq_nil_iff.mpr (List.getElem?_eq_none_iff.mp hc)
      have hnext : next root (leaving p found) =
          if (Site.mk a.node above).address = root.address then done found
          else leaving ⟨a.node, above⟩ found := by
        simp [next, Site.nextSibling?, Site.child?, Site.parent?, hp, hc]
      rw [hnext]
      split
      · next hback =>
          rw [(address_eq_iff hroot _).mp hback, levels_self] at hlevels
          refine ⟨trivial, ?_, ?_⟩
          · simp only [outcome, hlevels, hlater, Nesting.ahead, List.append_nil]
          · exact Nat.succ_pos _
      · next hbelow =>
          have hne : above ≠ root.above := fun h => hbelow ((address_eq_iff hroot _).mpr h)
          refine ⟨?_, ?_, ?_⟩
          · obtain ⟨way, rfl⟩ := hroot
            cases way with
            | nil => exact absurd rfl hne
            | cons b way => exact ⟨b, way ++ root.above, rfl, List.suffix_append way root.above⟩
          · simp only [outcome, hlevels, hlater, Nesting.ahead]
          · simp only [remaining, hlevels, hlater, Nesting.work, Tree.sizes_nil]
            omega

/-! ### The whole search -/

/-- From every moment with the cursor beneath the root, the search ends. -/
theorem ends {s : Search} (h : s.Inside root) :
    ∃ k ≤ s.remaining root, (next root)^[k] s = done (s.outcome root) := by
  induction hn : s.remaining root using Nat.strong_induction_on generalizing s with
  | _ n ih =>
      have hmove : ∀ s', next root s = s' → Progress root s s' →
          ∃ k ≤ n, (next root)^[k] s = done (s.outcome root) := by
        intro s' hs' hp
        obtain ⟨k, hk, hrun⟩ := ih _ (hn ▸ hp.remaining) hp.inside rfl
        have hless := hp.remaining
        refine ⟨k + 1, by omega, ?_⟩
        rw [Function.iterate_succ_apply, hs', hrun, hp.outcome]
      cases s with
      | arriving p found => exact hmove _ rfl (progress_arriving h found)
      | leaving p found => exact hmove _ rfl (progress_leaving h found)
      | done found => exact ⟨0, Nat.zero_le n, rfl⟩

/-- The search beneath a node ends with the constructs beneath it. -/
theorem start_ends (root : Site) :
    ∃ k < 2 * root.node.size, (next root)^[k] (start root) = done (constructs root.node) := by
  have hsize := root.node.size_eq
  cases hc : root.node.children with
  | nil =>
      have hstart : start root = done [] := by simp [start, Site.firstChild?, Site.child?, hc]
      have hnone : constructs root.node = [] := by simp [constructs, hc, Nesting.ahead]
      refine ⟨0, by omega, ?_⟩
      rw [hstart, hnone]
      rfl
  | cons c cs =>
      have hstart : start root = arriving ⟨c, ⟨root.node, 0⟩ :: root.above⟩ [] := by
        simp [start, Site.firstChild?, Site.child?, hc]
      have hlevels : levels root (⟨root.node, 0⟩ :: root.above) = [cs] := by
        rw [levels_cons List.suffix_rfl, levels_self, later, hc]
        rfl
      have hinside : (start root).Inside root := by
        rw [hstart]
        exact ⟨_, _, rfl, List.suffix_rfl⟩
      obtain ⟨k, hk, hrun⟩ := ends hinside
      refine ⟨k, ?_, hrun.trans ?_⟩
      · rw [hstart] at hk
        simp only [remaining, hlevels, Nesting.work] at hk
        rw [hc, Tree.sizes_cons] at hsize
        omega
      · rw [hstart]
        simp only [outcome, hlevels, ahead_cons, List.nil_append]
        rw [constructs, hc]

end Search

/-- **The search beneath a node** ends, whatever node of a tree it starts at, and after less than
two moves for every node at or beneath it.  It finds the constructs beneath that node and no
others, in document order, which has every node just once. -/
theorem search_exact {t : Node} {p : Site} (hp : p ∈ sites t) :
    (∃ k < 2 * p.node.size, (Search.next p)^[k] (.start p) = .done (constructs p.node)) ∧
    constructs p.node =
      ((sites t).filter (·.isBelow p)).filterMap (·.node.kind.construct?) ∧
    (sites t).Pairwise fun q r => q.path < r.path := by
  have hbelow : (sites t).filter (·.isBelow p) = sitesBelow p.node p.above 0 p.node.children :=
    filter_isBelow hp
  refine ⟨Search.start_ends p, ?_, pairwise_sitesFrom [] t⟩
  rw [hbelow]
  exact constructs_eq p.node p.above

/-- Beneath the outer function of the sample the last node lies five levels down. -/
theorem search_exact_sample : ∃ p ∈ sites sample, p.path = [2, 0] ∧
    constructs p.node = [.tryBlock, .ifBranch, .whileLoop, .ifBranch, .ternary, .forLoop] ∧
    ∃ k < 2 * p.node.size, (Search.next p)^[k] (.start p) = .done (constructs p.node) := by
  have hp : (sites sample)[4] ∈ sites sample := List.getElem_mem (by decide +kernel)
  refine ⟨_, hp, by decide +kernel, by decide +kernel, ?_⟩
  exact (search_exact hp).1

end DecisionScore.Python
