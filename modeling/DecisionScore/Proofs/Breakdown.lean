import DecisionScore.Breakdown
import DecisionScore.Proofs.SortedMap

/-! # Consistent breakdowns

What the operations on a breakdown do to the statistics of the constructs (`levels`, `noted`,
`total`), and how the parts of a breakdown fit together.  A breakdown is `Consistent` if its line
scores add up to the total, every record is in step with itself and has occurred, and no scope has
more than the whole.  A scope that is still open may be closed into the breakdown if it is
`Within` it. -/

namespace DecisionScore

/-! ### Records -/

namespace StructureRecord

/-- The count and the histogram of a record are those of its list of levels. -/
structure InStep (r : StructureRecord) : Prop where
  count : r.count = r.nestingLevels.length
  histogram : ∀ d, r.levelCounts.get? d =
    if d ∈ r.nestingLevels then some (r.nestingLevels.count d) else none

theorem inStep_empty : empty.InStep := by
  refine ⟨rfl, fun d => ?_⟩
  simp [empty]

theorem InStep.record {r : StructureRecord} (h : r.InStep) (depth : Nat) :
    (r.record depth).InStep := by
  refine ⟨by simp [StructureRecord.record, h.count], fun d => ?_⟩
  simp only [StructureRecord.record]
  rw [SortedMap.get?_upsert, h.histogram, h.histogram]
  by_cases hd : d = depth
  · subst hd
    by_cases hmem : d ∈ r.nestingLevels
    · simp [hmem, bump]
    · simp [hmem, bump, List.count_eq_zero_of_not_mem hmem]
  · simp [hd, Ne.symm hd, List.count_append]

theorem InStep.noteNested {r : StructureRecord} (h : r.InStep) (depth : Nat) (child : Construct) :
    (r.noteNested depth child).InStep := ⟨h.count, h.histogram⟩

end StructureRecord

/-! ### Statistics -/

namespace Structures

/-- The levels at which a kind occurs, in order. -/
def levels (s : Structures) (k : Construct) : List Nat :=
  ((s.get? k).map (·.nestingLevels)).getD []

/-- How many constructs of kind `child` are noted under those of kind `parent` at `depth`. -/
def noted (s : Structures) (parent : Construct) (depth : Nat) (child : Construct) : Nat :=
  (((s.get? parent).bind (·.nestedConditions.get? depth)).bind (·.get? child)).getD 0

/-- How many constructs of kind `child` are noted at `depth`, under whatever kind. -/
def notedAt (s : Structures) (depth : Nat) (child : Construct) : Nat :=
  (Construct.all.map fun parent => s.noted parent depth child).sum

/-- How many constructs of a kind the histogram has at `depth`. -/
def levelCount (s : Structures) (k : Construct) (depth : Nat) : Nat :=
  ((s.get? k).bind (·.levelCounts.get? depth)).getD 0

/-- The number of occurrences of all kinds together. -/
def total (s : Structures) : Nat := (s.values.map (·.count)).sum

variable (s : Structures) (kind k : Construct) (depth : Nat)

theorem get?_record : (s.record kind depth).get? k =
    if k = kind then some (((s.get? kind).getD .empty).record depth) else s.get? k :=
  SortedMap.get?_upsert _ _ _ _

theorem get?_noteNested (child : Construct) : (s.noteNested kind depth child).get? k =
    if k = kind then some (((s.get? kind).getD .empty).noteNested depth child) else s.get? k :=
  SortedMap.get?_upsert _ _ _ _

theorem isSome_record (h : (s.get? k).isSome = true) :
    ((s.record kind depth).get? k).isSome = true := by
  rw [get?_record]
  split
  · rfl
  · exact h

theorem isSome_record_self : ((s.record kind depth).get? kind).isSome = true := by
  rw [get?_record, if_pos rfl]
  rfl

theorem isSome_noteNested (child : Construct) (h : (s.get? k).isSome = true) :
    ((s.noteNested kind depth child).get? k).isSome = true := by
  rw [get?_noteNested]
  split
  · rfl
  · exact h

theorem levels_record :
    (s.record kind depth).levels k = s.levels k ++ if k = kind then [depth] else [] := by
  unfold levels
  rw [get?_record]
  by_cases h : k = kind
  · subst h
    cases s.get? k <;> simp [StructureRecord.record, StructureRecord.empty]
  · simp [h]

theorem levels_noteNested (child : Construct) :
    (s.noteNested kind depth child).levels k = s.levels k := by
  unfold levels
  rw [get?_noteNested]
  by_cases h : k = kind
  · subst h
    rw [if_pos rfl]
    cases s.get? k <;> rfl
  · rw [if_neg h]

theorem noted_record (d : Nat) (c : Construct) :
    (s.record kind depth).noted k d c = s.noted k d c := by
  unfold noted
  rw [get?_record]
  by_cases h : k = kind
  · subst h
    simp only [if_pos, Option.bind_some, StructureRecord.record, SortedMap.get?_upsert]
    by_cases hd : d = depth
    · subst hd
      cases s.get? k with
      | none => simp [StructureRecord.empty]
      | some r => cases hr : r.nestedConditions.get? d <;> simp [hr]
    · cases s.get? k <;> simp [hd, StructureRecord.empty]
  · rw [if_neg h]

theorem noted_noteNested (child : Construct) (d : Nat) (c : Construct) :
    (s.noteNested kind depth child).noted k d c =
      s.noted k d c + if k = kind ∧ d = depth ∧ c = child then 1 else 0 := by
  unfold noted
  rw [get?_noteNested]
  by_cases h : k = kind
  · subst h
    simp only [if_pos, Option.bind_some, StructureRecord.noteNested, SortedMap.get?_upsert]
    by_cases hd : d = depth
    · subst hd
      by_cases hc : c = child
      · subst hc
        cases s.get? k with
        | none => simp [StructureRecord.empty, SortedMap.get?_upsert, bump]
        | some r => cases hr : r.nestedConditions.get? d <;>
            simp [hr, SortedMap.get?_upsert, bump]
      · cases s.get? k with
        | none => simp [StructureRecord.empty, SortedMap.get?_upsert, hc]
        | some r => cases hr : r.nestedConditions.get? d <;>
            simp [hr, SortedMap.get?_upsert, hc]
    · cases s.get? k <;> simp [hd, StructureRecord.empty]
  · simp [h]

theorem notedAt_record (d : Nat) (c : Construct) :
    (s.record kind depth).notedAt d c = s.notedAt d c := by
  simp only [notedAt, noted_record]

theorem notedAt_noteNested (child : Construct) (d : Nat) (c : Construct) :
    (s.noteNested kind depth child).notedAt d c =
      s.notedAt d c + if d = depth ∧ c = child then 1 else 0 := by
  unfold notedAt
  by_cases h : d = depth ∧ c = child
  · -- of all kinds just the parent has one more
    simp only [noted_noteNested, h, and_self, and_true, if_true]
    cases kind <;> simp [Construct.all] <;> omega
  · have hnot : ∀ p, ¬(p = kind ∧ d = depth ∧ c = child) := fun p hp => h hp.2
    simp only [noted_noteNested, if_neg h, if_neg (hnot _), Nat.add_zero]

theorem total_record : (s.record kind depth).total = s.total + 1 := by
  have hsum := SortedMap.sum_values_upsert (·.count) s kind
    fun r => (r.getD .empty).record depth
  cases h : s.get? kind with
  | none =>
      rw [h] at hsum
      exact hsum
  | some r =>
      rw [h] at hsum
      have hsum : (s.record kind depth).total + r.count = s.total + (r.count + 1) := hsum
      omega

theorem total_noteNested (child : Construct) :
    (s.noteNested kind depth child).total = s.total := by
  have hsum := SortedMap.sum_values_upsert (·.count) s kind
    fun r => (r.getD .empty).noteNested depth child
  cases h : s.get? kind with
  | none =>
      rw [h] at hsum
      exact hsum
  | some r =>
      rw [h] at hsum
      have hsum : (s.noteNested kind depth child).total + r.count = s.total + r.count := hsum
      omega

end Structures

/-! ### Scopes within a breakdown -/

/-- A score that has at least the one path of every scope and no more than the whole. -/
structure ScopeScore.Within (x : ScopeScore) (b : Breakdown) : Prop where
  one_le : 1 ≤ x.cc
  cc_le : x.cc ≤ b.cc
  dc_le : x.dc ≤ b.dc

namespace ScopeScore.Within

variable {x : ScopeScore} {b b' : Breakdown}

theorem mono (h : x.Within b) (hcc : b.cc ≤ b'.cc) (hdc : b.dc ≤ b'.dc) : x.Within b' :=
  ⟨h.one_le, Nat.le_trans h.cc_le hcc, Nat.le_trans h.dc_le hdc⟩

theorem start (name : String) (h : 1 ≤ b.cc) : (Scope.start name).score.Within b :=
  ⟨Nat.le_refl 1, h, Nat.zero_le _⟩

theorem charge {s : Scope} (h : s.score.Within b) {dc : Nat} (hcc : b'.cc = b.cc + 1)
    (hdc : b'.dc = b.dc + dc) : (s.charge dc).score.Within b' := by
  obtain ⟨h1, h2, h3⟩ := h
  constructor <;> simp only [Scope.charge] <;> omega

theorem addPaths {s : Scope} (h : s.score.Within b) (paths : Nat) :
    (s.addPaths paths).score.Within (b.addPaths paths) := by
  obtain ⟨h1, h2, h3⟩ := h
  constructor <;> simp only [Scope.addPaths, Breakdown.addPaths] <;> omega

end ScopeScore.Within

/-- All scores of a map of closed scopes are within a breakdown. -/
def AllWithin (scopes : SortedMap String ScopeScore) (b : Breakdown) : Prop :=
  ∀ name x, scopes.get? name = some x → x.Within b

theorem AllWithin.mono {scopes : SortedMap String ScopeScore} {b b' : Breakdown}
    (h : AllWithin scopes b) (hcc : b.cc ≤ b'.cc) (hdc : b.dc ≤ b'.dc) : AllWithin scopes b' :=
  fun name x hx => (h name x hx).mono hcc hdc

theorem AllWithin.insert {scopes : SortedMap String ScopeScore} {b : Breakdown} {s : Scope}
    (h : AllWithin scopes b) (hs : s.score.Within b) :
    AllWithin (scopes.insert s.name s.score) b := by
  intro name x hx
  rw [SortedMap.insert, SortedMap.get?_upsert] at hx
  split at hx
  · obtain rfl := Option.some.inj hx
    exact hs
  · exact h name x hx

/-! ### Consistency -/

namespace Breakdown

/-- The parts of a breakdown fit together. -/
structure Consistent (b : Breakdown) : Prop where
  /-- The scores of the lines add up to the total. -/
  lines_sum : b.lineScores.values.sum = b.dc
  /-- Every line that has a score has one that counts. -/
  lines_pos : ∀ line n, b.lineScores.get? line = some n → 1 ≤ n
  /-- Every kind that has a record has occurred. -/
  occurred : ∀ k r, b.structures.get? k = some r → 1 ≤ r.count
  inStep : ∀ k r, b.structures.get? k = some r → r.InStep
  /-- There is a path for every occurrence, and one more. -/
  paths : 1 + b.structures.total ≤ b.cc
  methods : AllWithin b.methods b
  classes : AllWithin b.classes b

/-- A breakdown in which every path but the first one is that of a construct, and every construct
has a line to itself. -/
structure OnePerLine (b : Breakdown) : Prop where
  paths : b.cc = 1 + b.structures.total
  lines : b.lineScores.keys.length = b.cc - 1

theorem consistent_baseline : baseline.Consistent where
  lines_sum := rfl
  lines_pos _ _ h := by cases h
  occurred _ _ h := by cases h
  inStep _ _ h := by cases h
  paths := Nat.le_refl 1
  methods _ _ h := by cases h
  classes _ _ h := by cases h

namespace Consistent

variable {b : Breakdown} (h : b.Consistent)
include h

theorem one_le_cc : 1 ≤ b.cc := Nat.le_trans (Nat.le_add_right 1 _) h.paths

/-- No line has more than the whole. -/
theorem lineScore_le (line : Nat) : b.lineScore line ≤ b.dc := by
  -- without its score the line leaves the rest of the sum
  have hsum := SortedMap.sum_values_upsert id b.lineScores line fun _ => 0
  simp only [Option.map_id, id_eq, List.map_id, h.lines_sum, Nat.add_zero] at hsum
  exact Nat.le_of_add_left_le (Nat.le_of_eq hsum)

/-- The histogram of a kind counts its list of levels. -/
theorem levelCount_eq (k : Construct) (d : Nat) :
    b.structures.levelCount k d = (b.structures.levels k).count d := by
  unfold Structures.levelCount Structures.levels
  cases hk : b.structures.get? k with
  | none => rfl
  | some r =>
      rw [Option.bind_some, (h.inStep k r hk).histogram d]
      by_cases hd : d ∈ r.nestingLevels
      · simp [hd]
      · simp [hd, List.count_eq_zero_of_not_mem hd]

/-- **An occurrence**: scored on a line and recorded at a depth. -/
theorem occurrence {dc : Nat} (hdc : 1 ≤ dc) (line : Nat) (kind : Construct) (depth : Nat) :
    ((b.score line dc).record kind depth).Consistent where
  lines_sum := by
    have hsum := SortedMap.sum_values_upsert id b.lineScores line fun n => n.getD 0 + dc
    have hlines := h.lines_sum
    show (b.lineScores.upsert line _).values.sum = b.dc + dc
    cases hl : b.lineScores.get? line <;> simp only [hl, List.map_id, id_eq, Option.map_none,
      Option.map_some, Option.getD_none, Option.getD_some] at hsum <;> omega
  lines_pos l n hn := by
    have hn : (b.lineScores.upsert line fun n => n.getD 0 + dc).get? l = some n := hn
    rw [SortedMap.get?_upsert] at hn
    split at hn
    · obtain rfl := Option.some.inj hn
      omega
    · exact h.lines_pos l n hn
  occurred k r hr := by
    have hr : (b.structures.record kind depth).get? k = some r := hr
    rw [Structures.get?_record] at hr
    split at hr
    · obtain rfl := Option.some.inj hr
      exact Nat.le_add_left 1 _
    · exact h.occurred k r hr
  inStep k r hr := by
    have hr : (b.structures.record kind depth).get? k = some r := hr
    rw [Structures.get?_record] at hr
    split at hr
    · obtain rfl := Option.some.inj hr
      refine StructureRecord.InStep.record ?_ depth
      cases hk : b.structures.get? kind with
      | none => exact StructureRecord.inStep_empty
      | some r => exact h.inStep kind r hk
    · exact h.inStep k r hr
  paths := by
    have hpaths := h.paths
    show 1 + (b.structures.record kind depth).total ≤ b.cc + 1
    rw [Structures.total_record]
    omega
  methods := h.methods.mono (Nat.le_add_right _ _) (Nat.le_add_right _ _)
  classes := h.classes.mono (Nat.le_add_right _ _) (Nat.le_add_right _ _)

/-- A note under a kind that has occurred. -/
theorem noteNested {parent : Construct} (hp : (b.structures.get? parent).isSome = true)
    (depth : Nat) (child : Construct) : (b.noteNested parent depth child).Consistent := by
  obtain ⟨q, hq⟩ := Option.isSome_iff_exists.mp hp
  -- the record of the parent is there already, so that the note starts no record of its own
  have hget : ∀ k r, (b.noteNested parent depth child).structures.get? k = some r →
      ∃ r', b.structures.get? k = some r' ∧ (r = r' ∨ r = r'.noteNested depth child) := by
    intro k r hr
    have hr : (b.structures.noteNested parent depth child).get? k = some r := hr
    rw [Structures.get?_noteNested, hq] at hr
    split at hr
    · next hk => exact ⟨q, hk ▸ hq, .inr (Option.some.inj hr).symm⟩
    · exact ⟨r, hr, .inl rfl⟩
  refine ⟨h.lines_sum, h.lines_pos, ?_, ?_, ?_, h.methods.mono (Nat.le_refl _) (Nat.le_refl _),
    h.classes.mono (Nat.le_refl _) (Nat.le_refl _)⟩
  · intro k r hr
    obtain ⟨r', hr', rfl | rfl⟩ := hget k r hr
    · exact h.occurred k r hr'
    · exact h.occurred k r' hr'
  · intro k r hr
    obtain ⟨r', hr', rfl | rfl⟩ := hget k r hr
    · exact h.inStep k r hr'
    · exact (h.inStep k r' hr').noteNested depth child
  · show 1 + (b.structures.noteNested parent depth child).total ≤ b.cc
    rw [Structures.total_noteNested]
    exact h.paths

theorem addPaths (paths : Nat) : (b.addPaths paths).Consistent :=
  ⟨h.lines_sum, h.lines_pos, h.occurred, h.inStep, Nat.le_trans h.paths (Nat.le_add_right _ _),
    h.methods.mono (Nat.le_add_right _ _) (Nat.le_refl _),
    h.classes.mono (Nat.le_add_right _ _) (Nat.le_refl _)⟩

theorem closeMethod {s : Scope} (hs : s.score.Within b) : (b.closeMethod s).Consistent :=
  ⟨h.lines_sum, h.lines_pos, h.occurred, h.inStep, h.paths,
    (h.methods.insert hs).mono (Nat.le_refl _) (Nat.le_refl _),
    h.classes.mono (Nat.le_refl _) (Nat.le_refl _)⟩

theorem closeClass {s : Scope} (hs : s.score.Within b) : (b.closeClass s).Consistent :=
  ⟨h.lines_sum, h.lines_pos, h.occurred, h.inStep, h.paths,
    h.methods.mono (Nat.le_refl _) (Nat.le_refl _),
    (h.classes.insert hs).mono (Nat.le_refl _) (Nat.le_refl _)⟩

end Consistent

end Breakdown

theorem Construct.baseWeight_le (k : Construct) : k.baseWeight ≤ 3 := by
  cases k <;> decide

theorem one_le_factor (kind : Construct) (depth : Nat) :
    1 ≤ effectiveDepth depth * kind.baseWeight := by
  have hdepth : 1 ≤ effectiveDepth depth := Nat.le_max_right _ _
  have hbase : 1 ≤ kind.baseWeight := by cases kind <;> decide
  exact Nat.mul_pos hdepth hbase

/-- A construct contributes at least what its condition weighs. -/
theorem total_le_contribution (kind : Construct) (depth : Nat) (w : TokenWeight) :
    w.total ≤ contribution kind depth w := Nat.le_mul_of_pos_left _ (one_le_factor kind depth)

/-- A construct contributes something if its condition weighs something. -/
theorem one_le_contribution (kind : Construct) (depth : Nat) {w : TokenWeight}
    (h : 1 ≤ w.conds) : 1 ≤ contribution kind depth w := by
  have htotal : 1 ≤ w.total := by
    unfold TokenWeight.total
    omega
  exact Nat.le_trans htotal (total_le_contribution kind depth w)

end DecisionScore
