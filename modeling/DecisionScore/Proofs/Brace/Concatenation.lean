import DecisionScore.Proofs.Brace.Renumbering
import DecisionScore.Proofs.Brace.Sound
import DecisionScore.Proofs.Merge
import DecisionScore.Proofs.Text

/-! # Texts one after the other

What a line does depends on the stack and on what is open, and on nothing that was scored before.
A scan that starts `Idle`, behind a text of `n` lines with breakdown `b`, is therefore the scan of
the later text alone with its lines moved on by `n` and with `b` merged in front: `behind n b` takes
the states of the one to those of the other (`readLines_behind`). -/

namespace DecisionScore.Brace

namespace Scanner

/-- Nothing is open: no construct, no method and no class. -/
structure Idle (s : Scanner) : Prop where
  nesting : s.nesting = []
  openMethod : s.openMethod = none
  openClass : s.openClass = none

/-- The state of a scan if a text of `n` lines with breakdown `b` comes first. -/
def behind (n : Nat) (b : Breakdown) (s : Scanner) : Scanner :=
  { s with result := b.merge (s.result.shiftLines n) }

theorem behind_initial (n : Nat) {s : Scanner} (h : s.Idle) : initial.behind n s.result = s := by
  obtain ⟨nesting, openMethod, openClass, result⟩ := s
  obtain ⟨rfl, rfl, rfl⟩ := h
  exact congrArg (mk [] none none) result.merge_baseline

/-- Merging a breakdown in front moves all lines on. -/
theorem carries_behind (n : Nat) {b : Breakdown} (h : 1 ≤ b.cc) :
    Breakdown.Carries (· + n) fun c => b.merge (c.shiftLines n) where
  score c line dc := by rw [Breakdown.shiftLines_score, Breakdown.merge_score h]
  record c kind depth := b.merge_record (c.shiftLines n) kind depth
  noteNested c parent depth child := b.merge_noteNested (c.shiftLines n) parent depth child
  closeMethod c scope := b.merge_closeMethod (c.shiftLines n) scope
  closeClass c scope := b.merge_closeClass (c.shiftLines n) scope

/-- **All lines of a text.** -/
theorem readLines_behind (n : Nat) {b : Breakdown} (h : 1 ≤ b.cc) (excluded : List String) (i : Nat)
    (ls : List (List Char)) (s : Scanner) :
    readLines excluded (i + n) ls (s.behind n b) = (readLines excluded i ls s).behind n b :=
  readLines_withResult (carries_behind n h) excluded (fun _ _ => Nat.add_right_comm _ _ _) s

theorem finish_behind (n : Nat) (b : Breakdown) (s : Scanner) :
    (s.behind n b).finish = b.merge (s.finish.shiftLines n) :=
  finish_withResult (fun c => b.merge (c.shiftLines n))
    (fun c scope => b.merge_closeMethod (c.shiftLines n) scope)
    (fun c scope => b.merge_closeClass (c.shiftLines n) scope) s

theorem Idle.finish {s : Scanner} (h : s.Idle) : s.finish = s.result := by
  unfold Scanner.finish
  have hmethod : s.closeMethod = s := by rw [closeMethod, h.openMethod]
  have hclass : s.closeClass = s := by rw [closeClass, h.openClass]
  rw [hmethod, hclass]

end Scanner

/-- Lines are counted from one. -/
theorem one_le_of_mem_keys (language : Language) (extra : List String) (source : String)
    {line : Nat} (h : line ∈ (breakdown language extra source).lineScores.keys) : 1 ≤ line := by
  let excluded := language.excludedIdentifiers ++ extra
  let lines := Text.splitLines source.toList
  obtain ⟨m, hm⟩ := Option.isSome_iff_exists.mp ((SortedMap.mem_keys _ _).mp h)
  have hpos : 1 ≤ m :=
    (Scanner.sound_readLines .initial excluded lines).finish.1.lines_pos line m hm
  have hscore : (breakdown language extra source).lineScore line =
      0 + (((Scanner.occurrences excluded 1 lines .initial).filter fun o => o.line = line).map
        Occurrence.dc).sum := by
    let part : Breakdown → Nat := fun b => b.lineScore line
    have hclass := @Scanner.part_closeClass _ part (fun _ _ => rfl)
    have hmethod := @Scanner.part_closeMethod _ part (fun _ _ => rfl)
    exact ((hclass _).trans (hmethod _)).trans
      (Scanner.lineScore_readLines excluded 1 lines .initial line)
  have hline : (breakdown language extra source).lineScore line = m := by
    rw [Breakdown.lineScore, hm, Option.getD_some]
  rcases Nat.eq_zero_or_pos line with rfl | hline
  · -- no construct is on line zero, so that it would have no score
    have hnil :
        ((Scanner.occurrences excluded 1 lines .initial).filter fun o => o.line = 0) = [] := by
      refine List.filter_eq_nil_iff.mpr fun o ho => ?_
      have := Scanner.le_line_of_mem_occurrences excluded ho
      simp only [decide_eq_true_eq]
      omega
    rw [hnil] at hscore
    simp only [List.map_nil, List.sum_nil] at hscore
    omega
  · exact hline

/-- **A text behind another one.**  If nothing is open at the end of a text, the breakdown of that
text and another one below it is the two breakdowns merged, with the lines of the second one moved
on by the number of lines of the first.  No line has a score in both. -/
theorem breakdown_append (language : Language) (extra : List String) (first second : String)
    (h : (Scanner.readLines (language.excludedIdentifiers ++ extra) 1
      (Text.splitLines first.toList) .initial).Idle) :
    let n := (Text.splitLines first.toList).length
    let b := breakdown language extra first
    let c := (breakdown language extra second).shiftLines n
    breakdown language extra (first ++ "\n" ++ second) = b.merge c ∧
      (∀ line ∈ b.lineScores.keys, line ≤ n) ∧ ∀ line ∈ c.lineScores.keys, n < line := by
  intro n b c
  have hfirst := Scanner.sound_readLines .initial (language.excludedIdentifiers ++ extra)
    (Text.splitLines first.toList)
  have hb : b = _ := h.finish
  refine ⟨?_, ?_, ?_⟩
  · have hlines : Text.splitLines (first ++ "\n" ++ second).toList =
        Text.splitLines first.toList ++ Text.splitLines second.toList := by
      rw [String.toList_append, String.toList_append, List.append_assoc]
      exact Text.pieces_append '\n' first.toList second.toList
    show (Scanner.readLines _ 1 (Text.splitLines (first ++ "\n" ++ second).toList) _).finish = _
    rw [hlines, Scanner.readLines_append, ← Scanner.behind_initial n h,
      Scanner.readLines_behind n hfirst.consistent.one_le_cc, Scanner.finish_behind, ← hb]
    rfl
  · intro line hline
    rw [SortedMap.mem_keys, hb] at hline
    have := hfirst.before line hline
    omega
  · intro line hline
    have hline : line ∈ ((breakdown language extra second).lineScores.shift n).keys := hline
    rw [SortedMap.mem_keys, SortedMap.get?_shift] at hline
    split at hline
    · have := one_le_of_mem_keys language extra second ((SortedMap.mem_keys _ _).mpr hline)
      omega
    · cases hline

/-- Two texts that define a method of the same name: that of the second one counts. -/
theorem breakdown_append_sample :
    let first := "int f() \x7b\nif (a) \x7b\n\x7d"
    let second := "int f() \x7b\nfor (;;)\nif (b)"
    let b := breakdown .java [] (first ++ "\n" ++ second)
    (Scanner.readLines (Language.java.excludedIdentifiers ++ []) 1 (Text.splitLines first.toList)
      .initial).Idle ∧
    b = (breakdown .java [] first).merge ((breakdown .java [] second).shiftLines
      (Text.splitLines first.toList).length) ∧
    b.lineScores.entries = [(2, 4), (5, 2), (6, 4)] ∧ b.methods.entries = [("f", ⟨6, 3⟩)] := by
  intro first second b
  have hidle : ∀ s : Scanner, s.nesting = [] ∧ s.openMethod = none ∧ s.openClass = none → s.Idle :=
    fun _ h => ⟨h.1, h.2.1, h.2.2⟩
  have hfirst := hidle (Scanner.readLines (Language.java.excludedIdentifiers ++ []) 1
    (Text.splitLines first.toList) .initial) (by decide +kernel)
  exact ⟨hfirst, (breakdown_append .java [] first second hfirst).1, by decide +kernel⟩

end DecisionScore.Brace
