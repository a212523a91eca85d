import DecisionScore.Brace.Scan

/-! # Scans and the numbers of lines

A scan writes to its breakdown and never reads it, and the number of a line shows only in what is
written.  So a change of breakdowns that may be made before or after any write, with new numbers for
the lines (`Breakdown.Carries`), takes the scan of lines to the scan of the same lines under their
new numbers, line by line (`readLine_withResult`) and so as a whole (`readLines_withResult`). -/

namespace DecisionScore

/-- Whatever a scan writes to a breakdown may be written before a change or, under the new number of
the line, after it. -/
structure Breakdown.Carries (number : Nat → Nat) (change : Breakdown → Breakdown) : Prop where
  score : ∀ b line dc, change (b.score line dc) = (change b).score (number line) dc
  record : ∀ b kind depth, change (b.record kind depth) = (change b).record kind depth
  noteNested : ∀ b parent depth child,
    change (b.noteNested parent depth child) = (change b).noteNested parent depth child
  closeMethod : ∀ b scope, change (b.closeMethod scope) = (change b).closeMethod scope
  closeClass : ∀ b scope, change (b.closeClass scope) = (change b).closeClass scope

namespace Brace.Scanner

/-- The state of a scan with its breakdown changed. -/
def withResult (change : Breakdown → Breakdown) (s : Scanner) : Scanner :=
  { s with result := change s.result }

section
variable {change : Breakdown → Breakdown}

theorem closeMethod_withResult
    (h : ∀ b scope, change (b.closeMethod scope) = (change b).closeMethod scope) (s : Scanner) :
    (s.withResult change).closeMethod = s.closeMethod.withResult change := by
  obtain ⟨nesting, openMethod, openClass, result⟩ := s
  cases openMethod with
  | none => rfl
  | some m => exact congrArg (mk nesting none openClass) (h result m).symm

theorem closeClass_withResult
    (h : ∀ b scope, change (b.closeClass scope) = (change b).closeClass scope) (s : Scanner) :
    (s.withResult change).closeClass = s.closeClass.withResult change := by
  obtain ⟨nesting, openMethod, openClass, result⟩ := s
  cases openClass with
  | none => rfl
  | some c => exact congrArg (mk nesting openMethod none) (h result c).symm

theorem finish_withResult (change : Breakdown → Breakdown)
    (hmethod : ∀ b scope, change (b.closeMethod scope) = (change b).closeMethod scope)
    (hclass : ∀ b scope, change (b.closeClass scope) = (change b).closeClass scope) (s : Scanner) :
    (s.withResult change).finish = change s.finish := by
  unfold finish
  rw [closeMethod_withResult hmethod, closeClass_withResult hclass]
  rfl

end

variable {number : Nat → Nat} {change : Breakdown → Breakdown}
  (h : Breakdown.Carries number change)
include h

theorem closeBlock_withResult (s : Scanner) :
    (s.withResult change).closeBlock = s.closeBlock.withResult change := by
  unfold closeBlock
  rw [← closeClass_withResult h.closeClass, ← closeMethod_withResult h.closeMethod]
  rfl

theorem score_withResult (s : Scanner) (i : Nat) (kind : Construct) (depth : Nat)
    (line : List Char) : (s.withResult change).score (number i) kind depth line =
      (s.score i kind depth line).withResult change := by
  have hadd : ∀ dc, ((change s.result).score (number i) dc).record kind depth =
      change ((s.result.score i dc).record kind depth) := by
    intro dc
    rw [h.record, h.score]
  unfold score withResult
  simp only [hadd, mk.injEq, true_and]
  split
  · rfl
  · split
    · exact (h.noteNested _ _ _ _).symm
    · rfl

theorem scoreLine_withResult (s : Scanner) (i : Nat) (line : List Char) :
    (s.withResult change).scoreLine (number i) line = (s.scoreLine i line).withResult change := by
  unfold scoreLine
  simp only
  split
  · exact score_withResult h s i _ _ line
  · split
    · next kind _ => exact score_withResult h { s with nesting := kind :: s.nesting } i _ _ line
    · rfl

theorem bodyLine_withResult (s : Scanner) (i : Nat) (line : List Char) :
    (s.withResult change).bodyLine (number i) line = (s.bodyLine i line).withResult change := by
  unfold bodyLine
  rw [scoreLine_withResult h]
  simp only
  split
  · exact closeBlock_withResult h _
  · rfl

/-- **One line.** -/
theorem readLine_withResult (excluded : List String) (s : Scanner) (i : Nat) (raw : List Char) :
    (s.withResult change).readLine excluded (number i) raw =
      (s.readLine excluded i raw).withResult change := by
  have hopens : (s.withResult change).opensMethod? excluded (Text.trim raw) =
      s.opensMethod? excluded (Text.trim raw) := rfl
  unfold readLine trimmedLine
  rw [hopens, closeClass_withResult h.closeClass, bodyLine_withResult h]
  split
  · rfl
  · split
    · rfl
    · split <;> rfl

/-- **All lines of a text**, if their new numbers come one after the other, too. -/
theorem readLines_withResult (excluded : List String) {i j : Nat} {ls : List (List Char)}
    (hnumber : ∀ m < ls.length, number (i + m) = j + m) (s : Scanner) :
    readLines excluded j ls (s.withResult change) =
      (readLines excluded i ls s).withResult change := by
  induction ls generalizing i j s with
  | nil => rfl
  | cons l ls ih =>
      have hfirst : number i = j := hnumber 0 (Nat.zero_lt_succ _)
      have hrest : ∀ m < ls.length, number (i + 1 + m) = j + 1 + m := by
        intro m hm
        rw [Nat.add_assoc, Nat.add_assoc, Nat.add_comm 1]
        exact hnumber (m + 1) (Nat.succ_lt_succ hm)
      rw [readLines, readLines, ← ih hrest, ← readLine_withResult h, hfirst]

end Brace.Scanner

end DecisionScore
