import DecisionScore.Proofs.Breakdown
import DecisionScore.Proofs.Python.History
import DecisionScore.Proofs.Python.WorkList

/-! # Walks are consistent

The ledger of a walk is `Sound` if its breakdown is consistent and all open scopes may be closed.
Every act of a walk keeps it so (`Ledger.Sound.perform`), whatever the tree, and therefore the
breakdown of any tree is consistent. -/

namespace DecisionScore.Python

namespace Walk

/-! ### Conditions weigh something -/

theorem Registration.one_le_conds (r : Registration) : 1 ≤ r.tokens.conds := by
  unfold tokens
  cases r.condition with
  | none => exact Nat.le_refl 1
  | some c =>
      show 1 ≤ (Condition.weight c).conds
      rw [Condition.weight_eq_tokens]
      exact Nat.le_add_right 1 _

theorem Registration.one_le_dc (r : Registration) : 1 ≤ r.dc :=
  one_le_contribution r.kind r.depth r.one_le_conds

/-! ### Sound ledgers -/

namespace Ledger

/-- The breakdown of a ledger is consistent, and the open scopes may be closed. -/
structure Sound (l : Ledger) : Prop where
  consistent : l.result.Consistent
  methods : ∀ s ∈ l.methods, s.score.Within l.result
  classes : ∀ s ∈ l.classes, s.score.Within l.result

theorem sound_initial : (Walker.ledger .initial).Sound where
  consistent := Breakdown.consistent_baseline
  methods _ h := by cases h
  classes _ h := by cases h

end Ledger

theorem within_onInnermost {b b' : Breakdown} {f : Scope → Scope} {ss : List Scope}
    (h : ∀ s ∈ ss, s.score.Within b) (hf : ∀ s, s.score.Within b → (f s).score.Within b')
    (hcc : b.cc ≤ b'.cc) (hdc : b.dc ≤ b'.dc) :
    ∀ s ∈ Walker.onInnermost f ss, s.score.Within b' := by
  cases ss with
  | nil => exact fun s hs => by cases hs
  | cons s ss =>
      intro s' hs'
      rcases List.mem_cons.mp hs' with rfl | hs'
      · exact hf s (h s List.mem_cons_self)
      · exact (h s' (List.mem_cons_of_mem s hs')).mono hcc hdc

theorem consistent_noteAll {b : Breakdown} {kind : Construct} (h : b.Consistent)
    (hk : (b.structures.get? kind).isSome = true) (depth : Nat) (found : List Construct) :
    (Walker.noteAll b kind depth found).Consistent := by
  unfold Walker.noteAll
  induction found generalizing b with
  | nil => exact h
  | cons c found ih =>
      exact ih (h.noteNested hk depth c) (b.structures.isSome_noteNested _ _ _ _ hk)

namespace Ledger.Sound

variable {l : Ledger} (h : l.Sound)
include h

theorem score (r : Registration) : (l.perform (.score r)).Sound := by
  have hcc : (r.addTo l.result).cc = l.result.cc + 1 := by rw [r.addTo_eq]
  have hdc : (r.addTo l.result).dc = l.result.dc + r.dc := by rw [r.addTo_eq]
  have hcharge : ∀ s : Scope, s.score.Within l.result →
      (s.charge r.dc).score.Within (r.addTo l.result) := fun _ hs => hs.charge hcc hdc
  have hcc_le : l.result.cc ≤ (r.addTo l.result).cc := by omega
  have hdc_le : l.result.dc ≤ (r.addTo l.result).dc := by omega
  refine ⟨?_, within_onInnermost h.methods hcharge hcc_le hdc_le,
    within_onInnermost h.classes hcharge hcc_le hdc_le⟩
  exact consistent_noteAll (h.consistent.occurrence r.one_le_dc r.line r.kind r.depth)
    (l.result.structures.isSome_record_self _ _) r.depth r.found

theorem path (inMethod : Bool) : (l.perform (.path inMethod)).Sound := by
  have hpath : ∀ s : Scope, s.score.Within l.result →
      (s.addPaths 1).score.Within (l.result.addPaths 1) := fun _ hs => hs.addPaths 1
  have hcc : l.result.cc ≤ (l.result.addPaths 1).cc := Nat.le_add_right _ _
  have hdc : l.result.dc ≤ (l.result.addPaths 1).dc := Nat.le_refl _
  cases inMethod with
  | true =>
      exact ⟨h.consistent.addPaths 1, within_onInnermost h.methods hpath hcc hdc,
        fun s hs => (h.classes s hs).mono hcc hdc⟩
  | false =>
      exact ⟨h.consistent.addPaths 1, fun s hs => (h.methods s hs).mono hcc hdc,
        within_onInnermost h.classes hpath hcc hdc⟩

theorem openMethod (name : String) : (l.perform (.openMethod name)).Sound := by
  refine ⟨h.consistent, fun s hs => ?_, h.classes⟩
  rcases List.mem_cons.mp hs with rfl | hs
  · exact ScopeScore.Within.start name h.consistent.one_le_cc
  · exact h.methods s hs

theorem openClass (name : String) : (l.perform (.openClass name)).Sound := by
  refine ⟨h.consistent, h.methods, fun s hs => ?_⟩
  rcases List.mem_cons.mp hs with rfl | hs
  · exact ScopeScore.Within.start name h.consistent.one_le_cc
  · exact h.classes s hs

theorem closeMethod : (l.perform .closeMethod).Sound := by
  rw [Ledger.perform]
  split
  · exact h
  · next m ms hm =>
      have hall := h.methods
      rw [hm] at hall
      exact ⟨h.consistent.closeMethod (hall m List.mem_cons_self),
        fun s hs => (hall s (List.mem_cons_of_mem m hs)).mono (Nat.le_refl _) (Nat.le_refl _),
        fun s hs => (h.classes s hs).mono (Nat.le_refl _) (Nat.le_refl _)⟩

theorem closeClass : (l.perform .closeClass).Sound := by
  rw [Ledger.perform]
  split
  · exact h
  · next c cs hc =>
      have hall := h.classes
      rw [hc] at hall
      exact ⟨h.consistent.closeClass (hall c List.mem_cons_self),
        fun s hs => (h.methods s hs).mono (Nat.le_refl _) (Nat.le_refl _),
        fun s hs => (hall s (List.mem_cons_of_mem c hs)).mono (Nat.le_refl _) (Nat.le_refl _)⟩

/-- **One act** keeps a ledger sound. -/
theorem perform (a : Act) : (l.perform a).Sound := by
  cases a with
  | score r => exact h.score r
  | path inMethod => exact h.path inMethod
  | openMethod name => exact h.openMethod name
  | closeMethod => exact h.closeMethod
  | openClass name => exact h.openClass name
  | closeClass => exact h.closeClass

/-- **A whole run** keeps a ledger sound. -/
theorem run (as : List Act) : (as.foldl Ledger.perform l).Sound := by
  induction as generalizing l with
  | nil => exact h
  | cons a as ih => exact ih (h.perform a)

end Ledger.Sound

/-- The breakdown of any tree is consistent. -/
theorem consistent_breakdown (t : Node) : (breakdown t).Consistent := by
  rw [breakdown_result]
  exact (Ledger.sound_initial.run _).consistent

end Walk

end DecisionScore.Python
