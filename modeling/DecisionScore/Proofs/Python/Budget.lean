import Mathlib.Algebra.Order.BigOperators.Group.List
import Mathlib.Algebra.Order.Ring.Nat
import Mathlib.Tactic.Ring
import DecisionScore.Proofs.Breakdown
import DecisionScore.Proofs.Python.Scores
import DecisionScore.Proofs.Python.WorkList

/-! # How much a tree can score

A condition weighs at most three times its nodes, since no node adds more than two and the number of
its children (`total_weight_le`).  No site is deeper than two levels for every node of the tree: an
ancestor opens a level of its own and at most one for each of its children (`level_le`).  Over all
sites, of which there are as many as nodes, this bounds the totals of a breakdown
(`dc_breakdown_le`, `cc_breakdown_le`), and trees of up to `2 ^ 19` nodes have totals that fit in a
word (`totals_lt`). -/

namespace DecisionScore.Python

theorem length_le_sizes (cs : List Node) : cs.length ≤ Tree.sizes cs := by
  induction cs with
  | nil => exact Nat.le_refl 0
  | cons c cs ih =>
      rw [List.length_cons, Tree.sizes_cons, Tree.size_eq]
      omega

/-- The siblings of a node are nodes too. -/
theorem size_add_length_le {c : Node} {cs : List Node} (h : c ∈ cs) :
    c.size + cs.length ≤ Tree.sizes cs + 1 := by
  induction cs with
  | nil => cases h
  | cons d cs ih =>
      have hlength := length_le_sizes cs
      have hd := Tree.size_eq d
      rw [List.length_cons, Tree.sizes_cons]
      rcases List.mem_cons.mp h with rfl | h
      · omega
      · have := ih h
        omega

/-! ### The weight of a condition -/

namespace Condition

theorem total_add (v w : TokenWeight) : (v + w).total = v.total + w.total := by
  simp only [TokenWeight.total, TokenWeight.conds_add, TokenWeight.ops_add,
    TokenWeight.operands_add]
  omega

theorem total_share_le (isLabel : Bool) (t : Node) :
    (share isLabel t).total ≤ t.children.length + 2 := by
  have hnamed : namedCount t ≤ t.children.length := List.countP_le_length
  unfold share
  cases t.kind
  case comparisonOperator =>
    simp only [TokenWeight.total]
    omega
  case identifier => cases isLabel <;> simp [TokenWeight.total]
  all_goals simp [TokenWeight.total]

theorem total_tokensBelow_le {cs : List Node}
    (h : ∀ c ∈ cs, ∀ isLabel, (tokens isLabel c).total + 1 ≤ 3 * c.size) (label : Option Role) :
    (tokensBelow label cs).total + cs.length ≤ 3 * Tree.sizes cs := by
  induction cs generalizing label with
  | nil => exact Nat.le_refl 0
  | cons c cs ih =>
      have hc := h c List.mem_cons_self
      have hcs := ih fun d hd => h d (List.mem_cons_of_mem c hd)
      rw [tokensBelow, List.length_cons, Tree.sizes_cons]
      split
      · have := hc true
        have := hcs none
        rw [total_add]
        omega
      · have := hc false
        have := hcs label
        rw [total_add]
        omega

theorem total_tokens_le (t : Node) (isLabel : Bool) :
    (tokens isLabel t).total + 1 ≤ 3 * t.size := by
  induction t using Tree.childInduction generalizing isLabel with
  | node t ih =>
      have hshare := total_share_le isLabel t
      have hbelow := total_tokensBelow_le ih (labelRole? t.kind)
      have hlength := length_le_sizes t.children
      rw [tokens_eq, total_add, Tree.size_eq]
      split
      · omega
      · show (share isLabel t).total + 0 + 1 ≤ _
        omega

/-- **The weight of a condition** is at most three times the number of its nodes. -/
theorem total_weight_le (t : Node) : (weight t).total ≤ 3 * t.size := by
  have htokens := total_tokens_le t false
  rw [weight_eq_tokens, total_add]
  show 1 + _ ≤ _
  omega

end Condition

/-! ### Sites -/

theorem length_sitesBelow {n : Node} {cs : List Node}
    (h : ∀ c ∈ cs, ∀ above, (sitesFrom above c).length = c.size) (above : List Ancestor) (i : Nat) :
    (sitesBelow n above i cs).length = Tree.sizes cs := by
  induction cs generalizing i with
  | nil => rw [sitesBelow_nil, Tree.sizes_nil, List.length_nil]
  | cons c cs ih =>
      rw [sitesBelow_cons, List.length_append, h c List.mem_cons_self,
        ih fun d hd => h d (List.mem_cons_of_mem c hd), Tree.sizes_cons]

/-- A tree has a site for every node. -/
theorem length_sitesFrom (above : List Ancestor) (t : Node) :
    (sitesFrom above t).length = t.size := by
  induction t using Tree.childInduction generalizing above with
  | node t ih =>
      have hbelow := length_sitesBelow (n := t) (fun c hc above => ih c hc above) above 0
      rw [sitesFrom_eq, List.length_cons, hbelow, Tree.size_eq]

theorem clauseLevel_le (n : Node) (i : Nat) : clauseLevel n i ≤ n.children.length := by
  unfold clauseLevel
  split
  · exact Nat.le_trans List.countP_le_length (List.length_take_le' _ _)
  · exact List.countP_le_length
  · exact Nat.zero_le _

theorem ownLevel_le (k : Kind) : ownLevel k ≤ 1 := by
  unfold ownLevel
  split <;> decide

/-- **The level of a site.** -/
theorem level_le {above : List Ancestor} {n : Node} {p : Site} (hp : p ∈ sitesFrom above n) :
    p.level ≤ levelBelow above + 2 * n.size := by
  induction n using Tree.childInduction generalizing above with
  | node n ih =>
      have hown := ownLevel_le n.kind
      rw [sitesFrom_eq, List.mem_cons] at hp
      rcases hp with rfl | hp
      · have hsize := Tree.size_eq n
        show levelBelow above + ownLevel n.kind ≤ _
        omega
      · obtain ⟨i, c, -, hc, hp⟩ := exists_of_mem_sitesBelow hp
        have hlevel := ih c hc hp
        have hclause := clauseLevel_le n i
        have hsiblings := size_add_length_le hc
        have hlength := List.length_pos_of_mem hc
        rw [levelBelow_cons] at hlevel
        rw [Tree.size_eq]
        omega

theorem size_le_of_mem_sitesFrom {above : List Ancestor} {n : Node} {p : Site}
    (hp : p ∈ sitesFrom above n) : p.node.size ≤ n.size := by
  induction n using Tree.childInduction generalizing above with
  | node n ih =>
      rw [sitesFrom_eq, List.mem_cons] at hp
      rcases hp with rfl | hp
      · exact Nat.le_refl _
      · obtain ⟨i, c, -, hc, hp⟩ := exists_of_mem_sitesBelow hp
        exact Nat.le_trans (ih c hc hp) (Nat.le_of_lt (Tree.size_lt_of_mem hc))

theorem Site.total_tokens_le (p : Site) : p.tokens.total ≤ 3 * p.node.size := by
  have hsize := Tree.size_eq p.node
  unfold tokens
  split
  · show 1 ≤ _
    omega
  · next c hc =>
      obtain ⟨i, -, hi⟩ := Option.bind_eq_some_iff.mp hc
      have hc := Tree.size_lt_of_mem (List.mem_of_getElem? hi)
      have hweight := Condition.total_weight_le c
      omega

theorem contribution_le {t : Node} {p : Site} (hp : p ∈ sites t) :
    p.contribution ≤ 2 * t.size * 3 * (3 * t.size) := by
  have hsize := Tree.size_eq t
  have hlevel : max p.level 1 ≤ 2 * t.size := by
    have hlevel : p.level ≤ 0 + 2 * t.size := level_le hp
    omega
  have htokens : p.tokens.total ≤ 3 * t.size :=
    Nat.le_trans p.total_tokens_le (Nat.mul_le_mul_left 3 (size_le_of_mem_sitesFrom hp))
  unfold Site.contribution
  split
  · exact Nat.zero_le _
  · next k hk => exact Nat.mul_le_mul (Nat.mul_le_mul hlevel k.baseWeight_le) htokens

/-! ### The totals -/

open Walk

section
variable {t : Node} (h : Shaped t)
include h

theorem dc_breakdown_le : (breakdown t).dc ≤ 18 * t.size ^ 3 := by
  have hsum : ((constructSites t).map Site.contribution).sum ≤
      ((constructSites t).map Site.contribution).length • (2 * t.size * 3 * (3 * t.size)) := by
    refine List.sum_le_card_nsmul _ _ fun n hn => ?_
    obtain ⟨p, hp, rfl⟩ := List.mem_map.mp hn
    exact contribution_le (List.mem_of_mem_filter hp)
  have hlength : (constructSites t).length ≤ t.size := by
    rw [← length_sitesFrom [] t]
    exact List.length_filter_le _ _
  rw [dc_breakdown h]
  calc _ ≤ (constructSites t).length * (2 * t.size * 3 * (3 * t.size)) := by
        rw [List.length_map] at hsum
        exact hsum
    _ ≤ t.size * (2 * t.size * 3 * (3 * t.size)) := Nat.mul_le_mul_right _ hlength
    _ = 18 * t.size ^ 3 := by ring

theorem cc_breakdown_le : (breakdown t).cc ≤ 1 + 2 * t.size := by
  have hconstructs : (sites t).countP Site.isConstruct ≤ (sites t).length := List.countP_le_length
  have hoperators : (sites t).countP Site.isFreeOperator ≤ (sites t).length :=
    List.countP_le_length
  have hlength : (sites t).length = t.size := length_sitesFrom [] t
  rw [cc_breakdown h]
  omega

/-- The totals of a tree of up to `2 ^ 19` nodes fit in words of 64 bits. -/
theorem totals_lt (hsize : t.size ≤ 2 ^ 19) :
    (breakdown t).dc < UInt64.size ∧ (breakdown t).cc < UInt64.size := by
  have hdc := dc_breakdown_le h
  have hcc := cc_breakdown_le h
  have hpow : t.size ^ 3 ≤ (2 ^ 19) ^ 3 := Nat.pow_le_pow_left hsize 3
  have hword : UInt64.size = 2 ^ 64 := rfl
  omega

end

end DecisionScore.Python
