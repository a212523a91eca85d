import DecisionScore.Breakdown
import DecisionScore.Proofs.SortedMap

/-! # Merging breakdowns

The breakdown of two texts taken together: totals, line scores and statistics add up, the levels of
a kind come one after the other, and of two scopes of one name the later one counts.  There is one
path that no construct adds, and it is counted once.

Every operation that builds up a breakdown may be done before or after another breakdown is merged
in front (`merge_score`, `merge_record` and so on).  A scan or a walk that only writes to its
breakdown therefore gives the same after other text as on its own, up to what came before.

`Alike` breakdowns differ at most in their lists of levels and in their scopes; merging in either
order gives alike ones. -/

namespace DecisionScore

/-! ### Records -/

namespace StructureRecord

/-- The occurrences of two records, those of the first one first. -/
def merge (r s : StructureRecord) : StructureRecord where
  count := r.count + s.count
  nestingLevels := r.nestingLevels ++ s.nestingLevels
  levelCounts := r.levelCounts.unionWith (· + ·) s.levelCounts
  nestedConditions :=
    r.nestedConditions.unionWith (SortedMap.unionWith (· + ·)) s.nestedConditions

theorem merge_empty (r : StructureRecord) : r.merge empty = r := by
  simp [merge, empty]

theorem unionWith_bump {κ : Type} [Ord κ] [Std.TransOrd κ] [Std.LawfulEqOrd κ] [DecidableEq κ]
    (m n : SortedMap κ Nat) (k : κ) :
    m.unionWith (· + ·) (n.upsert k bump) = (m.unionWith (· + ·) n).upsert k bump :=
  SortedMap.unionWith_upsert m n k (fun _ _ => (Nat.add_assoc _ _ _).symm) fun _ => rfl

theorem merge_record (r s : StructureRecord) (depth : Nat) :
    r.merge (s.record depth) = (r.merge s).record depth := by
  simp only [merge, record, mk.injEq]
  refine ⟨(Nat.add_assoc _ _ _).symm, (List.append_assoc _ _ _).symm, unionWith_bump _ _ _, ?_⟩
  exact SortedMap.unionWith_upsert _ _ _ (fun _ _ => rfl) fun _ => rfl

theorem merge_noteNested (r s : StructureRecord) (depth : Nat) (child : Construct) :
    r.merge (s.noteNested depth child) = (r.merge s).noteNested depth child := by
  simp only [merge, noteNested, mk.injEq, true_and]
  exact SortedMap.unionWith_upsert _ _ _ (fun a b => unionWith_bump a b child)
    fun a => unionWith_bump a ∅ child

/-- All that a record says but its list of levels. -/
def unordered (r : StructureRecord) : StructureRecord := { r with nestingLevels := [] }

theorem unordered_merge (r s : StructureRecord) :
    (r.merge s).unordered = r.unordered.merge s.unordered := rfl

theorem unordered_merge_comm (r s : StructureRecord) :
    (r.merge s).unordered = (s.merge r).unordered := by
  have hadd : ∀ {κ : Type} [Ord κ] [Std.TransOrd κ] [Std.LawfulEqOrd κ] [DecidableEq κ]
      (m n : SortedMap κ Nat), m.unionWith (· + ·) n = n.unionWith (· + ·) m :=
    fun m n => SortedMap.unionWith_comm fun _ a b _ _ => Nat.add_comm a b
  simp only [unordered, merge, mk.injEq, true_and]
  exact ⟨Nat.add_comm _ _, hadd _ _, SortedMap.unionWith_comm fun _ a b _ _ => hadd a b⟩

end StructureRecord

/-! ### Statistics -/

namespace Structures

/-- The records of two texts, kind by kind. -/
def merge (s t : Structures) : Structures := SortedMap.unionWith StructureRecord.merge s t

theorem merge_record (s t : Structures) (kind : Construct) (depth : Nat) :
    s.merge (t.record kind depth) = (s.merge t).record kind depth := by
  refine SortedMap.unionWith_upsert s t kind (fun r q => r.merge_record q depth) fun r => ?_
  exact (r.merge_record .empty depth).trans (by rw [r.merge_empty]; rfl)

theorem merge_noteNested (s t : Structures) (parent : Construct) (depth : Nat)
    (child : Construct) :
    s.merge (t.noteNested parent depth child) = (s.merge t).noteNested parent depth child := by
  refine SortedMap.unionWith_upsert s t parent (fun r q => r.merge_noteNested q depth child)
    fun r => ?_
  exact (r.merge_noteNested .empty depth child).trans (by rw [r.merge_empty]; rfl)

theorem get?_merge (s t : Structures) (k : Construct) :
    (s.merge t).get? k = (s.get? k).merge StructureRecord.merge (t.get? k) :=
  SortedMap.get?_unionWith _ _ _ _

/-- The records of all kinds without their lists of levels. -/
def unordered (s : Structures) (k : Construct) : Option StructureRecord :=
  (s.get? k).map StructureRecord.unordered

theorem unordered_merge (s t : Structures) (k : Construct) :
    (s.merge t).unordered k = (s.unordered k).merge StructureRecord.merge (t.unordered k) := by
  unfold unordered
  rw [get?_merge]
  cases s.get? k <;> cases t.get? k <;> rfl

theorem unordered_merge_comm (s t : Structures) (k : Construct) :
    (s.merge t).unordered k = (t.merge s).unordered k := by
  unfold unordered
  rw [get?_merge, get?_merge]
  cases s.get? k with
  | none => cases t.get? k <;> rfl
  | some r =>
      cases t.get? k with
      | none => rfl
      | some q => exact congrArg some (r.unordered_merge_comm q)

end Structures

/-! ### Breakdowns -/

namespace Breakdown

/-- The breakdown of two texts one after the other. -/
def merge (b c : Breakdown) : Breakdown where
  dc := b.dc + c.dc
  cc := b.cc + c.cc - 1
  lineScores := b.lineScores.unionWith (· + ·) c.lineScores
  methods := b.methods.unionWith (fun _ later => later) c.methods
  classes := b.classes.unionWith (fun _ later => later) c.classes
  structures := b.structures.merge c.structures

/-- The breakdown of a text that starts `n` lines further down. -/
def shiftLines (n : Nat) (b : Breakdown) : Breakdown :=
  { b with lineScores := b.lineScores.shift n }

theorem merge_baseline (b : Breakdown) : b.merge baseline = b := by
  simp [merge, baseline, Structures.merge]

theorem shiftLines_score (n : Nat) (b : Breakdown) (line dc : Nat) :
    (b.score line dc).shiftLines n = (b.shiftLines n).score (line + n) dc := by
  simp only [shiftLines, score, SortedMap.shift_upsert]

/-! Merging a breakdown in front of another one, and the operations on the other one. -/

section
variable {b : Breakdown}

theorem merge_score (h : 1 ≤ b.cc) (c : Breakdown) (line dc : Nat) :
    b.merge (c.score line dc) = (b.merge c).score line dc := by
  simp only [merge, score, mk.injEq, and_true]
  refine ⟨(Nat.add_assoc _ _ _).symm, by omega, ?_⟩
  exact SortedMap.unionWith_upsert _ _ _ (fun _ _ => (Nat.add_assoc _ _ _).symm)
    fun a => congrArg (a + ·) (Nat.zero_add dc)

theorem merge_addPaths (h : 1 ≤ b.cc) (c : Breakdown) (paths : Nat) :
    b.merge (c.addPaths paths) = (b.merge c).addPaths paths := by
  simp only [merge, addPaths, mk.injEq, and_true, true_and]
  omega

variable (b : Breakdown)

theorem merge_closeMethod (c : Breakdown) (s : Scope) :
    b.merge (c.closeMethod s) = (b.merge c).closeMethod s := by
  simp only [merge, closeMethod, mk.injEq, and_true, true_and]
  exact SortedMap.unionWith_upsert _ _ _ (fun _ _ => rfl) fun _ => rfl

theorem merge_closeClass (c : Breakdown) (s : Scope) :
    b.merge (c.closeClass s) = (b.merge c).closeClass s := by
  simp only [merge, closeClass, mk.injEq, and_true, true_and]
  exact SortedMap.unionWith_upsert _ _ _ (fun _ _ => rfl) fun _ => rfl

theorem merge_record (c : Breakdown) (kind : Construct) (depth : Nat) :
    b.merge (c.record kind depth) = (b.merge c).record kind depth := by
  simp only [merge, record, Structures.merge_record]

theorem merge_noteNested (c : Breakdown) (parent : Construct) (depth : Nat) (child : Construct) :
    b.merge (c.noteNested parent depth child) = (b.merge c).noteNested parent depth child := by
  simp only [merge, noteNested, Structures.merge_noteNested]

end

/-! ### Merging in either order -/

/-- Two breakdowns are the same but for the lists of levels and the scopes. -/
structure Alike (b c : Breakdown) : Prop where
  dc : b.dc = c.dc
  cc : b.cc = c.cc
  lineScores : b.lineScores = c.lineScores
  structures : ∀ k, b.structures.unordered k = c.structures.unordered k

namespace Alike

theorem refl (b : Breakdown) : Alike b b := ⟨rfl, rfl, rfl, fun _ => rfl⟩

theorem trans {a b c : Breakdown} (h : Alike a b) (h' : Alike b c) : Alike a c :=
  ⟨h.dc.trans h'.dc, h.cc.trans h'.cc, h.lineScores.trans h'.lineScores,
    fun k => (h.structures k).trans (h'.structures k)⟩

theorem merge {b b' c c' : Breakdown} (h : Alike b b') (h' : Alike c c') :
    Alike (b.merge c) (b'.merge c') := by
  refine ⟨?_, ?_, ?_, fun k => ?_⟩
  · simp only [Breakdown.merge, h.dc, h'.dc]
  · simp only [Breakdown.merge, h.cc, h'.cc]
  · simp only [Breakdown.merge, h.lineScores, h'.lineScores]
  · simp only [Breakdown.merge, Structures.unordered_merge, h.structures, h'.structures]

theorem merge_comm (b c : Breakdown) : Alike (b.merge c) (c.merge b) := by
  refine ⟨Nat.add_comm _ _, ?_, ?_, fun k => Structures.unordered_merge_comm _ _ k⟩
  · simp only [Breakdown.merge, Nat.add_comm]
  · exact SortedMap.unionWith_comm fun _ x y _ _ => Nat.add_comm x y

end Alike

end Breakdown

end DecisionScore
