import Mathlib.Data.List.Forall2
import DecisionScore.Proofs.Brace.Lines
import DecisionScore.Proofs.Brace.Renumbering
import DecisionScore.Proofs.Text

/-! # The spacing of a text

A scan sees of a line only what is left when white space is taken off at both ends, so that the
indentation of a text and the way its lines end do not count (`readLines_eq_of_trim`).  Lines that
are blank or comments leave the state of a scan as it is (`readLines_of_skippable`): where some are
added, the lines below them get other numbers, and nothing else changes. -/

namespace DecisionScore

/-! ### The ends of lines -/

namespace Text

/-- The text with a carriage return before every line feed. -/
def withReturns (cs : List Char) : List Char :=
  cs.flatMap fun c => if c = '\n' then ['\r', '\n'] else [c]

/-- The lines of the text with carriage returns have at most white space more at their ends. -/
theorem splitLines_withReturns (cs : List Char) :
    List.Forall₂ (fun l' l => ∃ blanks, (∀ c ∈ blanks, isBlank c = true) ∧ l' = l ++ blanks)
      (splitLines (withReturns cs)) (splitLines cs) := by
  induction cs with
  | nil => exact .cons ⟨[], by simp, rfl⟩ .nil
  | cons c cs ih =>
      unfold splitLines at ih ⊢
      by_cases h : c = '\n'
      · subst h
        exact .cons ⟨['\r'], List.forall_mem_singleton.mpr (by decide), rfl⟩ ih
      · have hwith : withReturns (c :: cs) = c :: withReturns cs := by simp [withReturns, h]
        obtain ⟨l, ls, hpieces, hcons⟩ := exists_pieces_cons h cs
        obtain ⟨l', ls', hpieces', hcons'⟩ := exists_pieces_cons h (withReturns cs)
        rw [hpieces, hpieces'] at ih
        rw [hwith, hcons, hcons']
        obtain ⟨⟨blanks, hblanks, rfl⟩, hrest⟩ := List.forall₂_cons.mp ih
        exact .cons ⟨blanks, hblanks, rfl⟩ hrest

theorem map_trim_withReturns (cs : List Char) :
    (splitLines (withReturns cs)).map trim = (splitLines cs).map trim := by
  rw [← List.forall₂_eq_eq_eq, List.forall₂_map_left_iff, List.forall₂_map_right_iff]
  refine (splitLines_withReturns cs).imp ?_
  rintro l' l ⟨blanks, hblanks, rfl⟩
  exact trim_append l (List.forall_mem_nil _) hblanks

end Text

/-! ### Lines that are added -/

/-- The number that line `n` has once `j` lines are added behind line `k`. -/
def lineAfterInsert (k j n : Nat) : Nat := if k < n then n + j else n

theorem compare_lineAfterInsert (k j m n : Nat) :
    compare (lineAfterInsert k j m) (lineAfterInsert k j n) = compare m n := by
  unfold lineAfterInsert
  simp only [Nat.compare_eq_ite_lt]
  grind

namespace Breakdown

/-- The breakdown with every line behind line `k` moved down by `j`. -/
def insertLines (k j : Nat) (b : Breakdown) : Breakdown :=
  { b with lineScores := b.lineScores.mapKeys (lineAfterInsert k j) (compare_lineAfterInsert k j) }

theorem carries_insertLines (k j : Nat) : Carries (lineAfterInsert k j) (insertLines k j) where
  score b line dc := by simp only [insertLines, score, SortedMap.mapKeys_upsert]
  record _ _ _ := rfl
  noteNested _ _ _ _ := rfl
  closeMethod _ _ := rfl
  closeClass _ _ := rfl

end Breakdown

namespace Brace.Scanner

/-- A scan sees the lines without white space at either end. -/
theorem readLines_eq_of_trim (excluded : List String) {ls ls' : List (List Char)}
    (h : ls'.map Text.trim = ls.map Text.trim) (n : Nat) (s : Scanner) :
    readLines excluded n ls' s = readLines excluded n ls s := by
  induction ls generalizing ls' n s with
  | nil => rw [List.map_eq_nil_iff.mp h]
  | cons l ls ih =>
      obtain ⟨l', ls', rfl, hfirst, hrest⟩ := List.map_eq_cons_iff.mp h
      rw [readLines, readLines, readLine, readLine, hfirst, ih hrest]

/-- Blank lines and comments leave the state as it is. -/
theorem readLines_of_skippable (excluded : List String) {ls : List (List Char)}
    (h : ∀ l ∈ ls, isSkippable (Text.trim l) = true) (n : Nat) (s : Scanner) :
    readLines excluded n ls s = s := by
  induction ls generalizing n with
  | nil => rfl
  | cons l ls ih =>
      have hfirst : s.readLine excluded n l = s := by
        simp [readLine, trimmedLine, h l List.mem_cons_self]
      rw [readLines, hfirst, ih fun l' hl' => h l' (List.mem_cons_of_mem l hl')]

/-- A scan over lines to which blank lines and comments are added. -/
theorem readLines_insert (excluded : List String) {inserted : List (List Char)}
    (h : ∀ l ∈ inserted, isSkippable (Text.trim l) = true) (above below : List (List Char)) :
    readLines excluded 1 (above ++ inserted ++ below) initial =
      (readLines excluded 1 (above ++ below) initial).withResult
        (Breakdown.insertLines above.length inserted.length) := by
  let change := Breakdown.insertLines above.length inserted.length
  have hcarries := Breakdown.carries_insertLines above.length inserted.length
  let s := readLines excluded 1 above initial
  have habove : s = s.withResult change := by
    -- the lines above keep their numbers
    refine readLines_withResult hcarries excluded (fun m hm => ?_) initial
    rw [lineAfterInsert, if_neg (by omega)]
  have hbelow : readLines excluded (1 + (above ++ inserted).length) below (s.withResult change) =
      (readLines excluded (1 + above.length) below s).withResult change := by
    refine readLines_withResult hcarries excluded (fun m _ => ?_) s
    rw [lineAfterInsert, if_pos (by omega), List.length_append]
    omega
  rw [readLines_append, readLines_append, readLines_of_skippable excluded h, readLines_append,
    ← hbelow, ← habove]

end Brace.Scanner

namespace Brace

/-- **Spacing does not count.**  Texts whose lines are the same without white space at either end
have the same breakdown, however they are indented, whatever white space ends their lines, and with
or without carriage returns.  If blank lines or comments are added behind the first lines of a text,
the lines below them move down by as many, and nothing else in the breakdown changes. -/
theorem breakdown_respaced (language : Language) (extra : List String) (source : String) :
    (∀ source' : String, (Text.splitLines source'.toList).map Text.trim =
        (Text.splitLines source.toList).map Text.trim →
      breakdown language extra source' = breakdown language extra source) ∧
    (∀ before line after : List Char, (∀ c ∈ before ++ after, Text.isBlank c = true) →
      Text.trim (before ++ line ++ after) = Text.trim line) ∧
    breakdown language extra (String.ofList (Text.withReturns source.toList)) =
      breakdown language extra source ∧
    ∀ (source' : String) (above inserted below : List (List Char)),
      Text.splitLines source.toList = above ++ below →
      Text.splitLines source'.toList = above ++ inserted ++ below →
      (∀ l ∈ inserted, Scanner.isSkippable (Text.trim l) = true) →
      breakdown language extra source' =
        (breakdown language extra source).insertLines above.length inserted.length := by
  have hrespaced : ∀ source' : String, (Text.splitLines source'.toList).map Text.trim =
      (Text.splitLines source.toList).map Text.trim →
      breakdown language extra source' = breakdown language extra source := by
    intro source' h
    unfold breakdown
    rw [Scanner.readLines_eq_of_trim _ h]
  refine ⟨hrespaced, ?_, ?_, ?_⟩
  · intro before line after h
    exact Text.trim_append line (fun c hc => h c (List.mem_append_left after hc))
      fun c hc => h c (List.mem_append_right before hc)
  · refine hrespaced _ ?_
    rw [String.toList_ofList, Text.map_trim_withReturns]
  · intro source' above inserted below hlines hlines' hskip
    unfold breakdown
    rw [hlines, hlines', Scanner.readLines_insert _ hskip]
    exact Scanner.finish_withResult _ (fun _ _ => rfl) (fun _ _ => rfl) _

/-- A text indented in another way, and with a comment and a blank line added inside a method. -/
theorem breakdown_respaced_sample :
    let source := "int f() \x7b\nif (a) \x7b\nfor (;;)"
    let indented := "int f() \x7b\r\n\tif (a) \x7b \r\n\t\tfor (;;)\t"
    let commented := "int f() \x7b\n  // if (b)\n\t\nif (a) \x7b\nfor (;;)"
    let b := breakdown .java [] commented
    breakdown .java [] indented = breakdown .java [] source ∧
      Text.trim ("\t".toList ++ "for (;;)".toList ++ " ".toList) = "for (;;)".toList ∧
      b = (breakdown .java [] source).insertLines 1 2 ∧
      b.lineScores.entries = [(4, 4), (5, 2)] ∧ b.methods.entries = [("f", ⟨6, 3⟩)] := by
  intro source indented commented b
  obtain ⟨hindented, htrim, -, hcommented⟩ := breakdown_respaced .java [] source
  refine ⟨hindented indented (by decide +kernel), htrim _ _ _ (List.all_eq_true.mp (by decide)), ?_,
    by decide +kernel⟩
  exact hcommented commented ["int f() \x7b".toList] ["  // if (b)".toList, "\t".toList]
    ["if (a) \x7b".toList, "for (;;)".toList] (by decide +kernel) (by decide +kernel)
    (by decide +kernel)

end Brace

end DecisionScore
