import Mathlib.Data.List.Basic
import DecisionScore.Python.Lexer

/-! # Places in a text

The row of a place is the number of line breaks before it.  Reading keeps to this: whatever the
layout, the open strings and the tokens that the grammar can use, a token starts and ends at places
of the text (`inText_read`).  Of most tokens it is also known that they start with a character
other than a line break (`Token.isAnchored`): blank space is skipped before words, numbers and
marks, and the quotes and letters at the opening of a string are no line breaks either. -/

namespace DecisionScore.Python

/-- There is a character other than a line break in the row. -/
def IsInhabited (text : List Char) (row : Nat) : Prop :=
  ∃ before c after, text = before ++ c :: after ∧ c ≠ '\n' ∧ row = before.count '\n'

/-! ### Cursors -/

namespace Cursor

/-- The place is in the text, in the row that the line breaks before it make. -/
def InText (text : List Char) (c : Cursor) : Prop :=
  ∃ before, text = before ++ c.rest ∧ c.row = before.count '\n'

/-- What is left to read starts with a character other than a line break. -/
def AtChar (c : Cursor) : Prop := ∃ x xs, c.rest = x :: xs ∧ x ≠ '\n'

variable {text : List Char} {c : Cursor}

theorem inText_start (text : List Char) : (start text).InText text := ⟨[], rfl, rfl⟩

theorem InText.next (h : c.InText text) : c.next.InText text := by
  obtain ⟨before, htext, hrow⟩ := h
  unfold Cursor.next
  cases hrest : c.rest with
  | nil => exact ⟨before, htext, hrow⟩
  | cons x xs =>
      refine ⟨before ++ [x], by rw [htext, hrest, List.append_assoc, List.singleton_append], ?_⟩
      rw [List.count_append, List.count_singleton, ← hrow]
      by_cases hx : x = '\n' <;> simp [hx]

theorem InText.skip (h : c.InText text) (n : Nat) : (c.skip n).InText text := by
  induction n generalizing c with
  | zero => exact h
  | succ n ih => exact ih h.next

theorem InText.skipIf (h : c.InText text) (x : Char) : (c.skipIf x).InText text := by
  unfold Cursor.skipIf
  split
  · exact h.next
  · exact h

theorem InText.isInhabited (h : c.InText text) (hc : c.AtChar) : IsInhabited text c.row := by
  obtain ⟨before, htext, hrow⟩ := h
  obtain ⟨x, xs, hrest, hx⟩ := hc
  exact ⟨before, x, xs, hrest ▸ htext, hx, hrow⟩

theorem rest_skip (c : Cursor) (n : Nat) : (c.skip n).rest = c.rest.drop n := by
  induction n generalizing c with
  | zero => rfl
  | succ n ih =>
      rw [Cursor.skip, ih]
      unfold Cursor.next
      cases hrest : c.rest with
      | nil => rw [hrest, List.drop_nil, List.drop_nil]
      | cons x xs => rfl

/-- The next character is neither a line break nor the mark of the end of the text. -/
theorem atChar_of_peek (hnull : c.peek ≠ '\x00') (hbreak : c.peek ≠ '\n') : c.AtChar := by
  cases hrest : c.rest with
  | nil => simp [peek, hrest] at hnull
  | cons x xs => exact ⟨x, xs, hrest, by simpa [peek, hrest] using hbreak⟩

end Cursor

/-! ### Layout -/

/-- Whether a token always starts with a character other than a line break. -/
def Token.isAnchored : Token → Bool
  | .newline | .indent | .dedent | .stringContent | .stringEnd | .endOfText => false
  | _ => true

/-- The token is at places of the text, and where it starts there is a character of its own. -/
structure Scanned.InText (text : List Char) (s : Scanned) : Prop where
  first : s.first.InText text
  last : s.last.InText text
  atChar : s.token.isAnchored = true → s.first.AtChar

namespace Layout

variable {text : List Char} {c : Cursor}

theorem inText_skipRawEscape (h : c.InText text) (d : Delimiter) :
    (skipRawEscape d c).InText text := by
  simp only [skipRawEscape]
  split <;> split
  · exact h.next.next.next.skipIf '\n'
  · exact h.next.next.skipIf '\n'
  · exact h.next.next.skipIf '\n'
  · exact h.next.skipIf '\n'

theorem inText_skipLine (h : c.InText text) : (skipLine c).InText text := by
  fun_induction skipLine c with
  | case1 => exact h
  | case2 c _ ih => exact ih h.next

theorem inText_gap {g g' : Gap} (h : g.last.InText text) (hg : gap g = some g') :
    g'.last.InText text := by
  fun_induction gap g with
  | case1 =>
      obtain rfl := Option.some.inj hg
      exact h
  | case2 g c x _ _ ih | case3 g c x _ _ _ ih | case4 g c x _ _ _ _ ih
  | case5 g c x _ _ _ _ _ ih => exact ih h.next hg
  | case6 => cases hg
  | case7 g c x _ _ _ _ _ _ _ ih => exact ih (inText_skipLine h).next hg
  | case8 g c x _ _ _ _ _ _ _ _ e ih => exact ih (h.next.skipIf '\r').next hg
  | case9 => cases hg
  | case10 g c x =>
      obtain rfl := Option.some.inj hg
      exact h

/-- A string is opened by quotes, with letters before them. -/
theorem inText_opening {d d' : Delimiter} {last : Cursor} (h : c.InText text)
    (ho : opening d c = some (d', last)) : last.InText text ∧ c.AtChar := by
  have hc : c.AtChar := by
    rw [opening] at ho
    refine Cursor.atChar_of_peek ?_ ?_ <;>
      (intro hp; rw [hp] at ho; revert ho; simp)
  refine ⟨?_, hc⟩
  clear hc
  fun_induction opening d c with
  | case1 _ _ _ _ ih | case2 _ _ _ _ _ ih | case3 _ _ _ _ _ _ ih | case4 _ _ _ _ _ _ _ ih =>
      exact ih h.next ho
  | case5 | case7 =>
      obtain ⟨-, rfl⟩ := Prod.mk.inj (Option.some.inj ho)
      exact h.next
  | case6 =>
      obtain ⟨-, rfl⟩ := Prod.mk.inj (Option.some.inj ho)
      exact h.skip 3
  | case8 => cases ho

/-- What is found inside a string is a part of the string that ends at a place of the text. -/
def Inside.InText (text : List Char) : Inside → Prop
  | .found t last => t.isAnchored = false ∧ last.InText text
  | .none => True
  | .ended last => last.InText text

theorem inText_content (h : c.InText text) (d : Delimiter) (started : Bool) :
    (content d started c).InText text := by
  have hcontent : ∀ (started : Bool) {last : Cursor}, last.InText text →
      Inside.InText text (if started then .found .stringContent last else .none) := by
    intro started last hlast
    cases started
    · trivial
    · exact ⟨rfl, hlast⟩
  fun_induction content d started c with
  | case1 => exact h
  | case2 | case5 | case6 => exact hcontent _ h
  | case3 _ _ _ _ _ _ _ ih => exact ih (inText_skipRawEscape h d)
  | case4 _ _ _ _ _ _ _ _ _ _ ih => exact ih h.next.next.next
  | case7 | case11 => exact ⟨rfl, h⟩
  | case8 => exact ⟨rfl, h.skip 3⟩
  | case9 => exact ⟨rfl, h.skip 2⟩
  | case10 | case12 => exact ⟨rfl, h.next⟩
  | case13 => trivial
  | case14 _ _ _ _ _ _ _ _ ih => exact ih h.next

theorem inText_scanOutside {l : Layout} {accepts : Token → Bool} {s : Scanned}
    (h : c.InText text) (hs : scanOutside l accepts c = some s) : s.InText text := by
  have houtline : ∀ {t : Token} {l : Layout}, t.isAnchored = false →
      some (outline t c l) = some s → s.InText text := by
    intro t l ht hs
    obtain rfl := Option.some.inj hs
    exact ⟨h, h, fun hanchored => by cases ht.symm.trans hanchored⟩
  obtain ⟨g, hg, hs⟩ := Option.bind_eq_some_iff.mp hs
  have hstring : ((opening ⟨'\x00', false, false, false, false⟩ g.last).bind fun x =>
      some ⟨.stringStart, g.last, x.2,
        { l with delimiters := x.1 :: l.delimiters, inFormat := x.1.isFormat }⟩) = some s →
      s.InText text := by
    intro hs
    obtain ⟨⟨d, last⟩, ho, hs⟩ := Option.bind_eq_some_iff.mp hs
    obtain rfl := Option.some.inj hs
    have hfirst := inText_gap h hg
    obtain ⟨hlast, hchar⟩ := inText_opening hfirst ho
    exact ⟨hfirst, hlast, fun _ => hchar⟩
  dsimp only at hs
  repeat' split at hs
  all_goals first
    | exact houtline rfl hs
    | exact hstring hs
    | cases hs

/-- **Layout and strings** keep to the text. -/
theorem inText_scan {l : Layout} {accepts : Token → Bool} {s : Scanned} (h : c.InText text)
    (hs : l.scan accepts c = some s) : s.InText text := by
  unfold scan at hs
  split at hs
  · exact inText_scanOutside h hs
  · rename_i d _ _
    split at hs
    · rename_i hbrace
      split at hs
      · obtain rfl := Option.some.inj hs
        refine ⟨h, h.skip 2, fun _ => ?_⟩
        simp only [Bool.and_eq_true, Bool.or_eq_true, decide_eq_true_eq] at hbrace
        rcases hbrace.2 with hc | hc
        · exact Cursor.atChar_of_peek (by simp [hc]) (by simp [hc])
        · exact Cursor.atChar_of_peek (by simp [hc]) (by simp [hc])
      · cases hs
    · split at hs
      · have hcontent := inText_content h d false
        split at hs
        · rename_i hfound
          rw [hfound] at hcontent
          obtain rfl := Option.some.inj hs
          exact ⟨h, hcontent.2, fun hanchored => by cases hanchored⟩
        · rename_i hfound
          rw [hfound] at hcontent
          obtain rfl := Option.some.inj hs
          exact ⟨h, hcontent.2, fun hanchored => by cases hcontent.1.symm.trans hanchored⟩
        · cases hs
        · rename_i hfound
          rw [hfound] at hcontent
          exact inText_scanOutside hcontent hs
      · exact inText_scanOutside h hs

end Layout

/-! ### Words, numbers and marks -/

namespace Lexer

variable {text : List Char} {c : Cursor} {accepts : Token → Bool}

theorem longest_nil (accepts : Token → Bool) : (longest accepts []).1 = 0 := by
  have hmark : markAt accepts [] = (0, .endOfText) := by simp [markAt, Token.marks]
  have hwords : wordLength [] = 0 ∧ integerLength [] = 0 ∧ floatLength [] = 0 := by decide
  unfold longest
  simp [hmark, hwords, longer, commentLength, joinLength, conversionLength]

theorem atChar_of_formatText (h : formatTextLength c.rest ≠ 0) : c.AtChar := by
  unfold formatTextLength at h
  cases hrest : c.rest with
  | nil => simp [hrest] at h
  | cons x xs =>
      refine ⟨x, xs, hrest, ?_⟩
      rintro rfl
      simp [hrest] at h

theorem atChar_of_escape (h : escapeLength c.rest ≠ 0) : c.AtChar := by
  unfold escapeLength at h
  split at h
  · rename_i y ys hrest
    exact ⟨'\\', y :: ys, hrest, by decide⟩
  · exact absurd rfl h

/-- A token that is looked for behind blank space. -/
theorem atChar_of_longest (h : (longest accepts (c.skip (c.rest.takeWhile isBlank).length).rest).1
    ≠ 0) : (c.skip (c.rest.takeWhile isBlank).length).AtChar := by
  have hrest : (c.skip (c.rest.takeWhile isBlank).length).rest = c.rest.dropWhile isBlank := by
    rw [Cursor.rest_skip]
    nth_rewrite 2 [← List.takeWhile_append_dropWhile (p := isBlank) (l := c.rest)]
    exact List.drop_left
  cases hdrop : c.rest.dropWhile isBlank with
  | nil =>
      rw [hrest, hdrop] at h
      exact absurd (longest_nil accepts) h
  | cons x xs =>
      refine ⟨x, xs, hrest.trans hdrop, ?_⟩
      rintro rfl
      have hblank := List.head?_dropWhile_not isBlank c.rest
      rw [hdrop] at hblank
      cases hblank

theorem inText_plain {t : Token} {first : Cursor} {n : Nat} (h : c.InText text)
    (hp : plain accepts c = some (t, first, n)) :
    first.InText text ∧ (t.isAnchored = true → first.AtChar) := by
  have hfound : ∀ {t' : Token} {first' : Cursor} {n' : Nat},
      first'.InText text → (t'.isAnchored = true → first'.AtChar) →
      some (t', first', n') = some (t, first, n) →
      first.InText text ∧ (t.isAnchored = true → first.AtChar) := by
    intro t' first' n' hfirst hchar hsome
    obtain ⟨rfl, hrest⟩ := Prod.mk.inj (Option.some.inj hsome)
    obtain ⟨rfl, -⟩ := Prod.mk.inj hrest
    exact ⟨hfirst, hchar⟩
  simp only [plain] at hp
  generalize hescape : (if accepts .escapeSequence then escapeLength c.rest else 0) = escape at hp
  split at hp
  · rename_i htext
    refine hfound (h.skip _) (fun _ => atChar_of_formatText ?_) hp
    rw [Cursor.rest_skip]
    simpa using (Bool.and_eq_true_iff.mp htext).2
  · split at hp
    · rename_i hne
      refine hfound h (fun _ => atChar_of_escape ?_) hp
      intro hzero
      simp [← hescape, hzero] at hne
    · split at hp
      · rename_i hlongest
        exact hfound (h.skip _) (fun _ => atChar_of_longest (bne_iff_ne.mp hlongest)) hp
      · split at hp
        · rename_i hlone
          simp only [Bool.and_eq_true, decide_eq_true_eq] at hlone
          exact hfound h (fun _ => Cursor.atChar_of_peek (by simp [hlone.2]) (by simp [hlone.2])) hp
        · split at hp
          · exact hfound (h.skip _) (fun hanchored => by cases hanchored) hp
          · cases hp

/-- **Every token** is at places of the text. -/
theorem inText_read {l : Layout} {s : Scanned} (h : c.InText text)
    (hs : read l accepts c = some s) : s.InText text := by
  unfold read at hs
  split at hs
  · rename_i s' hscan
    obtain rfl := Option.some.inj hs
    exact Layout.inText_scan h hscan
  · obtain ⟨⟨t, first, n⟩, hp, rfl⟩ := Option.map_eq_some_iff.mp hs
    obtain ⟨hfirst, hchar⟩ := inText_plain h hp
    exact ⟨hfirst, hfirst.skip n, hchar⟩

end Lexer

end DecisionScore.Python
