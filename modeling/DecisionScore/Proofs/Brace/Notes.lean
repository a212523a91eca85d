import DecisionScore.Proofs.Brace.Sound

/-! # Notes are conserved

A scan notes a construct under the one that stands `reach` levels above it: the level right above
for a construct that opens a block, the second one above for a ternary, which opens none.  The notes
at a depth therefore add up to the constructs one level below it.  What carries the proof is that
the construct at place `i` of the stack has occurred at depth `i`. -/

namespace DecisionScore.Brace

open Scanner

/-! ### The construct a note is made under -/

/-- How many levels above its own depth a construct is noted. -/
def reach (k : Construct) : Nat := if k = .ternary then 2 else 1

/-- A construct is noted if there are enough levels above it. -/
theorem parent?_push {nesting : List Construct} {o : Occurrence}
    (h : o.depth = nesting.length) : parent? (o.push nesting) o.depth =
      if reach o.kind ≤ o.depth then nesting.reverse[o.depth - reach o.kind]? else none := by
  unfold parent? Occurrence.push reach
  rw [h]
  by_cases hk : o.kind = .ternary
  · simp only [hk, if_true]
    by_cases hlen : 2 ≤ nesting.length
    · have hplace : nesting.length - 1 - (nesting.length - 2) = 1 := by omega
      rw [if_neg (by omega), if_pos hlen, List.getElem?_reverse (by omega), hplace]
    · rw [if_neg hlen, List.getElem?_eq_none (by omega)]
      exact ite_self none
  · simp only [hk, if_false]
    by_cases hlen : 1 ≤ nesting.length
    · have hplace : nesting.length - 1 - (nesting.length - 1) = 0 := by omega
      rw [if_neg (by omega), if_pos hlen, List.getElem?_reverse (by omega), hplace,
        List.getElem?_cons_succ]
    · rw [if_pos (by omega), if_neg hlen]

/-! ### What a scan keeps -/

namespace Scanner

/-- What holds of the notes of a scan. -/
structure Conserved (s : Scanner) : Prop where
  /-- The construct at place `i` of the stack, counted from the outermost, has occurred at depth
  `i`. -/
  stack : ∀ i k, s.nesting.reverse[i]? = some k → i ∈ s.result.structures.levels k
  /-- The notes at a depth are those of the constructs one level below it. -/
  notes : ∀ c d, s.result.structures.notedAt d c =
    if reach c ≤ d + 1 then (s.result.structures.levels c).count (d + 1) else 0
  /-- What a construct is noted under has occurred at its depth. -/
  parents : ∀ p c d, 0 < s.result.structures.noted p d c →
    reach c ≤ d + 1 ∧ d + 1 - reach c ∈ s.result.structures.levels p

namespace Conserved

theorem initial : Conserved initial where
  stack i k h := by simp [Scanner.initial] at h
  notes c d := by
    show 0 = _
    split <;> rfl
  parents p c d h := absurd h (Nat.lt_irrefl 0)

variable {s : Scanner}

/-- Only the stack and the statistics matter. -/
theorem congr {s' : Scanner} (h : Conserved s) (hnesting : s'.nesting = s.nesting)
    (hstructures : s'.result.structures = s.result.structures) : Conserved s' :=
  ⟨by rw [hnesting, hstructures]; exact h.stack, by rw [hstructures]; exact h.notes,
    by rw [hstructures]; exact h.parents⟩

theorem closeMethod (h : Conserved s) : Conserved s.closeMethod :=
  h.congr (nesting_closeMethod s) (part_closeMethod (fun _ _ => rfl) s)

theorem closeClass (h : Conserved s) : Conserved s.closeClass :=
  h.congr (nesting_closeClass s) (part_closeClass (fun _ _ => rfl) s)

/-- Taking the innermost construct off the stack leaves the others in their places. -/
theorem closeBlock (h : Conserved s) : Conserved s.closeBlock := by
  have hdrop : Conserved { s with nesting := s.nesting.drop 1 } := by
    refine { h with stack := fun i k hi => h.stack i k ?_ }
    cases hs : s.nesting with
    | nil => simp [hs] at hi
    | cons top below =>
        have hi : below.reverse[i]? = some k := by simpa [hs] using hi
        obtain ⟨hlt, -⟩ := List.getElem?_eq_some_iff.mp hi
        rw [List.reverse_cons, List.getElem?_append_left hlt, hi]
  exact hdrop.closeMethod.closeClass

/-! ### Scoring a construct -/

/-- The levels of a kind after a construct has been entered. -/
theorem levels_enter (s : Scanner) (o : Occurrence) (k : Construct) :
    (s.enter o).result.structures.levels k =
      s.result.structures.levels k ++ if k = o.kind then [o.depth] else [] :=
  (part_enter (fun b => b.structures.levels k)
    (fun b _ _ _ => b.structures.levels_noteNested _ _ _ _) s o).trans
    (s.result.structures.levels_record _ _ _)

theorem mem_levels_enter (s : Scanner) (o : Occurrence) {k : Construct} {d : Nat}
    (h : d ∈ s.result.structures.levels k) : d ∈ (s.enter o).result.structures.levels k := by
  rw [levels_enter]
  exact List.mem_append_left _ h

/-- The construct goes on the stack at the place of its depth. -/
theorem stack_enter (h : Conserved s) (o : Occurrence) (ho : o.depth = s.nesting.length) :
    ∀ i k, (s.enter o).nesting.reverse[i]? = some k →
      i ∈ (s.enter o).result.structures.levels k := by
  intro i k hi
  have hi : (o.push s.nesting).reverse[i]? = some k := hi
  unfold Occurrence.push at hi
  split at hi
  · exact mem_levels_enter s o (h.stack i k hi)
  · rw [List.reverse_cons, List.getElem?_append, List.length_reverse] at hi
    split at hi
    · exact mem_levels_enter s o (h.stack i k hi)
    · obtain ⟨hlt, hk⟩ := List.getElem?_eq_some_iff.mp hi
      rw [List.length_singleton] at hlt
      have hid : i = o.depth := by omega
      have hk : k = o.kind := by simpa using hk.symm
      rw [levels_enter, if_pos hk, hid]
      exact List.mem_append_right _ List.mem_cons_self

/-- The construct that one at the depth of the stack is noted under has occurred. -/
theorem of_parent? (h : Conserved s) {o : Occurrence} (ho : o.depth = s.nesting.length)
    {parent : Construct} (hp : parent? (o.push s.nesting) o.depth = some parent) :
    reach o.kind ≤ o.depth ∧ o.depth - reach o.kind ∈ s.result.structures.levels parent := by
  rw [parent?_push ho] at hp
  split at hp
  · next hreach => exact ⟨hreach, h.stack _ _ hp⟩
  · cases hp

/-- There is a construct to note another one under just where the stack is high enough. -/
theorem isSome_parent? {o : Occurrence} (ho : o.depth = s.nesting.length) :
    (parent? (o.push s.nesting) o.depth).isSome = decide (reach o.kind ≤ o.depth) := by
  rw [parent?_push ho]
  by_cases hreach : reach o.kind ≤ o.depth
  · have hpos : 1 ≤ reach o.kind := by
      unfold reach
      split <;> omega
    have hlt : o.depth - reach o.kind < s.nesting.reverse.length := by
      rw [List.length_reverse]
      omega
    simp [hreach, List.getElem?_eq_getElem hlt]
  · simp [hreach]

/-- A construct adds one to the count of its kind at its depth. -/
theorem count_levels_enter (s : Scanner) (o : Occurrence) (c : Construct) (d : Nat) :
    ((s.enter o).result.structures.levels c).count d =
      (s.result.structures.levels c).count d + if d = o.depth ∧ c = o.kind then 1 else 0 := by
  rw [levels_enter, List.count_append]
  by_cases hc : c = o.kind
  · by_cases hd : d = o.depth
    · simp [hc, hd]
    · simp [hc, hd, Ne.symm hd]
  · simp [hc]

theorem notes_enter (h : Conserved s) (o : Occurrence) (ho : o.depth = s.nesting.length)
    (c : Construct) (d : Nat) : (s.enter o).result.structures.notedAt d c =
      if reach c ≤ d + 1 then ((s.enter o).result.structures.levels c).count (d + 1) else 0 := by
  have hsome := isSome_parent? (s := s) ho
  have hadd : (o.addTo s.result).structures.notedAt d c = s.result.structures.notedAt d c :=
    s.result.structures.notedAt_record _ _ _ _
  rw [count_levels_enter, result_enter]
  cases hp : parent? (o.push s.nesting) o.depth with
  | none =>
      have hreach : ¬ reach o.kind ≤ o.depth := by simpa [hp] using hsome
      rw [Option.elim_none, hadd, h.notes]
      by_cases hc : d + 1 = o.depth ∧ c = o.kind
      · rw [hc.1, hc.2, if_neg hreach, if_neg hreach]
      · rw [if_neg hc]
        rfl
  | some parent =>
      have hreach : reach o.kind ≤ o.depth := by simpa [hp] using hsome
      have hpos : o.depth ≠ 0 := fun h0 => by simp [parent?, h0] at hp
      have hdepth : d = o.depth - 1 ∧ c = o.kind ↔ d + 1 = o.depth ∧ c = o.kind :=
        and_congr_left fun _ => by omega
      have hnote := (o.addTo s.result).structures.notedAt_noteNested parent (o.depth - 1) o.kind d c
      rw [Option.elim_some, Breakdown.noteNested, hnote, hadd, h.notes]
      by_cases hc : d + 1 = o.depth ∧ c = o.kind
      · rw [if_pos (hdepth.mpr hc), if_pos hc, hc.1, hc.2, if_pos hreach, if_pos hreach]
      · rw [if_neg fun hd => hc (hdepth.mp hd), if_neg hc]
        rfl

theorem parents_enter (h : Conserved s) (o : Occurrence) (ho : o.depth = s.nesting.length)
    (p c : Construct) (d : Nat) (hp : 0 < (s.enter o).result.structures.noted p d c) :
    reach c ≤ d + 1 ∧ d + 1 - reach c ∈ (s.enter o).result.structures.levels p := by
  have hold : 0 < s.result.structures.noted p d c →
      reach c ≤ d + 1 ∧ d + 1 - reach c ∈ (s.enter o).result.structures.levels p := fun hp =>
    ⟨(h.parents p c d hp).1, mem_levels_enter s o (h.parents p c d hp).2⟩
  have hadd : (o.addTo s.result).structures.noted p d c = s.result.structures.noted p d c :=
    s.result.structures.noted_record _ _ _ _ _
  rw [result_enter] at hp
  cases hparent : parent? (o.push s.nesting) o.depth with
  | none =>
      rw [hparent, Option.elim_none, hadd] at hp
      exact hold hp
  | some parent =>
      have hpos : o.depth ≠ 0 := fun h0 => by simp [parent?, h0] at hparent
      rw [hparent, Option.elim_some, Breakdown.noteNested, Structures.noted_noteNested, hadd] at hp
      by_cases hnew : p = parent ∧ d = o.depth - 1 ∧ c = o.kind
      · obtain ⟨rfl, rfl, rfl⟩ := hnew
        obtain ⟨hreach, hmem⟩ := h.of_parent? ho hparent
        rw [Nat.sub_add_cancel (Nat.pos_of_ne_zero hpos)]
        exact ⟨hreach, mem_levels_enter s o hmem⟩
      · rw [if_neg hnew, Nat.add_zero] at hp
        exact hold hp

/-- **Scoring a construct** at the depth of the stack. -/
theorem enter (h : Conserved s) (o : Occurrence) (ho : o.depth = s.nesting.length) :
    Conserved (s.enter o) :=
  ⟨h.stack_enter o ho, h.notes_enter o ho, h.parents_enter o ho⟩

/-! ### Acts -/

/-- **One act.** -/
theorem perform (h : Conserved s) {a : Act} (ha : ∀ o ∈ a.occurrence?, o.depth = s.nesting.length) :
    Conserved (s.perform a) := by
  cases a with
  | openClass name => exact h.closeClass.congr rfl rfl
  | openMethod name => exact h.congr rfl rfl
  | body found closes =>
      have hfound : Conserved (found.elim s s.enter) := by
        cases found with
        | none => exact h
        | some o => exact h.enter o (ha o rfl)
      cases closes with
      | false => exact hfound
      | true => exact hfound.closeBlock

theorem readLine (h : Conserved s) (excluded : List String) (n : Nat) (raw : List Char) :
    Conserved (s.readLine excluded n raw) := by
  rw [readLine_eq]
  cases ha : s.act? excluded n raw with
  | none => exact h
  | some a => exact h.perform fun o ho => (of_mem_act? ha o ho).2.1

/-- **A whole scan.** -/
theorem readLines (h : Conserved s) (excluded : List String) (n : Nat) (ls : List (List Char)) :
    Conserved (readLines excluded n ls s) := by
  induction ls generalizing n s with
  | nil => exact h
  | cons l ls ih => exact ih (h.readLine excluded n l) (n + 1)

end Conserved

end Scanner

/-- The statistics of a text are those of a scan that conserves its notes. -/
theorem conserved_breakdown (language : Language) (extra : List String) (source : String) :
    ∃ s, Conserved s ∧ s.result = breakdown language extra source :=
  ⟨_, (Conserved.initial.readLines _ 1 _).closeMethod.closeClass, rfl⟩

/-- **Notes are conserved.**  Of a kind other than the ternary, as many constructs are noted at a
depth, under all kinds together, as the histogram has one level below, and a kind under which one is
noted has occurred at that depth.  Ternaries are not noted at depth zero; at any other depth they
are noted in the same number, but under a kind that has occurred one level higher. -/
theorem notes_conserved (language : Language) (extra : List String) (source : String) :
    let s := (breakdown language extra source).structures
    (∀ c, c ≠ .ternary → ∀ d, s.notedAt d c = s.levelCount c (d + 1) ∧
      ∀ p, 0 < s.noted p d c → 0 < s.levelCount p d) ∧
    s.notedAt 0 .ternary = 0 ∧
    ∀ d, 1 ≤ d → s.notedAt d .ternary = s.levelCount .ternary (d + 1) ∧
      ∀ p, 0 < s.noted p d .ternary → 0 < s.levelCount p (d - 1) := by
  obtain ⟨t, h, ht⟩ := conserved_breakdown language extra source
  have hcount := (sound_readLines Sound.initial
    (language.excludedIdentifiers ++ extra) (Text.splitLines source.toList)).finish.1.levelCount_eq
  have hcount : ∀ k d, (breakdown language extra source).structures.levelCount k d =
      ((breakdown language extra source).structures.levels k).count d := hcount
  rw [← ht] at hcount ⊢
  refine ⟨fun c hc d => ?_, h.notes .ternary 0, fun d hd => ?_⟩
  · have hreach : reach c = 1 := if_neg hc
    refine ⟨?_, fun p hp => ?_⟩
    · rw [h.notes, hreach, if_pos (by omega), hcount]
    · obtain ⟨-, hmem⟩ := h.parents p c d hp
      rw [hreach, Nat.add_sub_cancel] at hmem
      rw [hcount]
      exact List.count_pos_iff.mpr hmem
  · have hreach : reach .ternary = 2 := rfl
    refine ⟨?_, fun p hp => ?_⟩
    · rw [h.notes, hreach, if_pos (by omega), hcount]
    · obtain ⟨-, hmem⟩ := h.parents p .ternary d hp
      rw [hreach] at hmem
      rw [hcount]
      exact List.count_pos_iff.mpr hmem

/-- A ternary inside two loops is noted under the outer one, though at the depth of the inner. -/
example :
    let source := "for (;;) \x7b\nwhile (a) \x7b\nx = b ? c : d;\n\x7d\n\x7d"
    let s := (breakdown .java [] source).structures
    s.noted .forLoop 0 .whileLoop = 1 ∧ s.noted .forLoop 1 .ternary = 1 ∧
      s.levelCount .ternary 2 = 1 := by decide +kernel

end DecisionScore.Brace
