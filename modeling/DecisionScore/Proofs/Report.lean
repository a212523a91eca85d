import Mathlib.Data.List.Forall2
import DecisionScore.Report
import DecisionScore.Proofs.Wire
import DecisionScore.Proofs.Text

/-! # What a report shows

Escape sequences aside, every line of a report holds what it is about, whatever the colours and the
padding.  `Style.visible` is what is left of a text without its escape sequences, so that paint is
not seen (`Style.visible_paint`), and `shownWords` are the words of it.  The words of a line are read
from the left: a piece of it `Leads` on or `Joins` two words, and what comes next is read on its own.

A row of the heat listing can be read back (`readRow?_heatRow`).  The report on a file shows its
path, its totals, its rows and what was found in it (`showsFile_fileLines`); the report on a scan
shows every file and every failure (`exists_showsScan`).  As JSON it binds the paths to the
breakdowns, as far as the paths are not shown alike (`showsByPath_scanJson`). -/

namespace DecisionScore

/-! ### What is seen -/

namespace Style

/-- What is seen of a text, of which the first characters may belong to an escape sequence. -/
def visibleFrom : Bool → List Char → List Char
  | _, [] => []
  | true, c :: cs => visibleFrom (c != 'm') cs
  | false, c :: cs => if c = '\x1b' then visibleFrom true cs else c :: visibleFrom false cs

/-- What is seen of a text: escape sequences, each up to its `m`, are left out. -/
def visible (cs : List Char) : List Char := visibleFrom false cs

theorem visibleFrom_reset_append (hidden : Bool) (cs : List Char) :
    visibleFrom hidden (reset ++ cs) = visibleFrom false cs := by
  cases hidden <;> rfl

theorem visibleFrom_sequence_append (hidden : Bool) (s : Style) (cs : List Char) :
    visibleFrom hidden (s.sequence ++ cs) = visibleFrom false cs := by
  cases hidden <;> cases s <;> rfl

/-- A style that is taken up again is not seen. -/
theorem visibleFrom_resume_append (s : Style) (text cs : List Char) (hidden : Bool) :
    visibleFrom hidden (s.resume text ++ cs) = visibleFrom hidden (text ++ cs) := by
  fun_induction resume s text generalizing hidden with
  | case1 rest ih =>
      rw [List.append_assoc, List.append_assoc, visibleFrom_reset_append,
        visibleFrom_sequence_append, ih]
      exact (visibleFrom_reset_append hidden (rest ++ cs)).symm
  | case2 c rest _ ih =>
      cases hidden with
      | true => exact ih _
      | false =>
          rw [List.cons_append, List.cons_append, visibleFrom, visibleFrom, ih, ih]
  | case3 => rfl

theorem visibleFrom_append_reset (hidden : Bool) (text cs : List Char) :
    visibleFrom hidden (text ++ (reset ++ cs)) = visibleFrom hidden text ++ visible cs := by
  induction text generalizing hidden with
  | nil => exact visibleFrom_reset_append hidden cs
  | cons c text ih =>
      cases hidden with
      | true => exact ih _
      | false =>
          rw [List.cons_append, visibleFrom, visibleFrom, ih, ih]
          split
          · rfl
          · rfl

/-- **Paint is not seen.** -/
theorem visible_paint (color : Bool) (s : Style) (text : String) :
    visible (s.paint color text).toList = visible text.toList := by
  cases color with
  | false => rfl
  | true =>
      have hend := visibleFrom_append_reset false text.toList []
      rw [List.append_nil, show visible [] = [] from rfl, List.append_nil] at hend
      rw [paint, if_pos rfl, String.toList_ofList, visible, List.append_assoc,
        visibleFrom_sequence_append, visibleFrom_resume_append, hend, visible]

theorem visible_append_of_plain {text : List Char} (h : '\x1b' ∉ text) (cs : List Char) :
    visible (text ++ cs) = text ++ visible cs := by
  induction text with
  | nil => rfl
  | cons c text ih =>
      obtain ⟨hc, htext⟩ := List.ne_and_not_mem_of_not_mem_cons h
      rw [List.cons_append, visible, visibleFrom, if_neg (Ne.symm hc), ← visible, ih htext]
      rfl

theorem visible_of_plain {text : List Char} (h : '\x1b' ∉ text) : visible text = text := by
  have happend := visible_append_of_plain h []
  rwa [List.append_nil, show visible [] = [] from rfl, List.append_nil] at happend

theorem resume_of_plain {text : List Char} (h : '\x1b' ∉ text) (s : Style) :
    s.resume text = text := by
  fun_induction resume s text with
  | case1 rest ih => exact absurd List.mem_cons_self h
  | case2 c rest _ ih => rw [ih fun hmem => h (List.mem_cons_of_mem c hmem)]
  | case3 => rfl

/-- What paint adds to a text without escape sequences stands at its ends. -/
theorem toList_paint (color : Bool) (s : Style) {text : String} (h : '\x1b' ∉ text.toList) :
    (s.paint color text).toList =
      (if color then s.sequence else []) ++ text.toList ++ (if color then reset else []) := by
  cases color with
  | false => simp [paint]
  | true => simp [paint, resume_of_plain h]

theorem visible_front_append (color : Bool) (s : Style) (cs : List Char) :
    visible ((if color then s.sequence else []) ++ cs) = visible cs := by
  cases color with
  | false => rfl
  | true => exact visibleFrom_sequence_append false s cs

theorem visible_paint_append (color : Bool) (s : Style) {text : String}
    (h : '\x1b' ∉ text.toList) (cs : List Char) :
    visible ((s.paint color text).toList ++ cs) = text.toList ++ visible cs := by
  rw [toList_paint color s h, List.append_assoc, List.append_assoc, visible_front_append,
    visible_append_of_plain h]
  cases color with
  | false => rfl
  | true => exact congrArg (text.toList ++ ·) (visibleFrom_reset_append false cs)

end Style

/-! ### Words of a line -/

namespace Report

/-- A character between words. -/
def isBetween (c : Char) : Bool := Text.isBlank c || c == ','

/-- A character of a word. -/
def isWithin (c : Char) : Bool := !isBetween c && c != '\x1b'

/-- The words that are seen of a text. -/
def seenWords (cs : List Char) : List (List Char) :=
  Text.words ((Style.visible cs).map fun c => if c = ',' then ' ' else c)

/-- The words that are seen on a line: they stand between white space and commas. -/
def shownWords (line : String) : List String := (seenWords line.toList).map String.ofList

/-- A text without escape sequences. -/
def IsPlain (s : String) : Prop := '\x1b' ∉ s.toList

/-- A text that is a single word. -/
def IsWord (s : String) : Prop := s.toList ≠ [] ∧ ∀ c ∈ s.toList, isWithin c = true

/-- A text with such words, of which the last has come to its end. -/
def Leads (s : String) (ws : List String) : Prop :=
  IsPlain s ∧ s.toList.getLast?.any isBetween = true ∧ shownWords s = ws

/-- A text with such words that goes on with no word and leaves none unfinished. -/
def Joins (s : String) (ws : List String) : Prop :=
  s.toList.head?.any isBetween = true ∧ Leads s ws

instance (s : String) : Decidable (IsPlain s) := inferInstanceAs (Decidable (¬ _))

-- the characters of the text are what is decided about, not all characters there are
instance (s : String) : Decidable (IsWord s) :=
  haveI : Decidable (∀ c ∈ s.toList, isWithin c = true) := List.decidableBAll _ _
  inferInstanceAs (Decidable (_ ∧ _))

instance (s : String) (ws : List String) : Decidable (Leads s ws) :=
  inferInstanceAs (Decidable (_ ∧ _ ∧ _))

instance (s : String) (ws : List String) : Decidable (Joins s ws) :=
  inferInstanceAs (Decidable (_ ∧ _))

theorem isBetween_iff {c : Char} :
    isBetween c = true ↔ Text.isBlank (if c = ',' then ' ' else c) = true := by
  by_cases h : c = ','
  · subst h
    exact iff_of_true rfl rfl
  · simp [isBetween, h]

/-- Words do not go on over what is between them. -/
theorem seenWords_append {cs : List Char} (h : '\x1b' ∉ cs) {c : Char} (hc : isBetween c = true)
    (ds : List Char) : seenWords (cs ++ c :: ds) = seenWords cs ++ seenWords ds := by
  have hne : c ≠ '\x1b' := by
    rintro rfl
    cases hc
  have hsplit : Style.visible (cs ++ c :: ds) = Style.visible cs ++ c :: Style.visible ds := by
    rw [Style.visible_append_of_plain h, Style.visible_of_plain h]
    congr 1
    exact if_neg hne
  rw [seenWords, hsplit, List.map_append, List.map_cons,
    Text.words_append_cons (isBetween_iff.mp hc), seenWords, seenWords]

/-! ### Shown words, part by part -/

section
variable {s gap w : String}

theorem IsWord.isPlain (h : IsWord w) : IsPlain w := fun hmem => absurd (h.2 _ hmem) (by decide)

theorem IsWord.append (h : IsWord s) (hw : IsWord w) : IsWord (s ++ w) := by
  refine ⟨by simp [h.1], fun c hc => ?_⟩
  rw [String.toList_append] at hc
  exact (List.mem_append.mp hc).elim (h.2 c) (hw.2 c)

theorem IsPlain.append (h : IsPlain s) (hw : IsPlain w) : IsPlain (s ++ w) := by
  intro hmem
  rw [String.toList_append] at hmem
  exact (List.mem_append.mp hmem).elim h hw

theorem isWord_toString (n : Nat) : IsWord (toString n) := by
  have hdigits : (toString n).toList = Nat.toDigits 10 n := by
    rw [Nat.toString_eq_repr, Nat.toList_repr]
  constructor
  · rw [hdigits]
    exact Nat.toDigits_ne_nil
  · intro c hc
    rw [hdigits] at hc
    exact Json.of_mem_toDigits (fun c => isWithin c = true) (by decide) hc

theorem shownWords_word (h : IsWord w) : shownWords w = [w] := by
  have hchars : ∀ c ∈ w.toList, Text.isBlank c = false ∧ (if c = ',' then ' ' else c) = c := by
    intro c hc
    have hwithin := h.2 c hc
    simp [isWithin, isBetween] at hwithin
    exact ⟨hwithin.1.1, if_neg hwithin.1.2⟩
  have hwords := Text.words_append_end h.1 (fun c hc => (hchars c hc).1) (List.forall_mem_nil _)
  rw [List.append_nil] at hwords
  rw [shownWords, seenWords, Style.visible_of_plain h.isPlain,
    List.map_congr_left fun c hc => (hchars c hc).2, List.map_id', hwords, List.map_singleton,
    String.ofList_toList]

theorem Leads.shownWords_append {ws : List String} (h : Leads s ws) (rest : String) :
    shownWords (s ++ rest) = ws ++ shownWords rest := by
  obtain ⟨hs, hend, rfl⟩ := h
  obtain ⟨c, hlast, hc⟩ := (Option.any_eq_true _ _).mp hend
  obtain ⟨cs, hcs⟩ := List.getLast?_eq_some_iff.mp hlast
  have hplain : '\x1b' ∉ cs := fun hmem => hs (hcs ▸ List.mem_append_left [c] hmem)
  have hend := seenWords_append hplain hc []
  rw [show seenWords [] = [] from rfl, List.append_nil] at hend
  simp only [shownWords]
  rw [String.toList_append, hcs, List.append_assoc, List.singleton_append,
    seenWords_append hplain hc, hend, List.map_append]

/-- Nothing is lost where a word meets what joins it to the next one. -/
theorem shownWords_append_of_head (h : gap.toList.head?.any isBetween = true) (hs : IsPlain s) :
    shownWords (s ++ gap) = shownWords s ++ shownWords gap := by
  obtain ⟨c, hhead, hc⟩ := (Option.any_eq_true _ _).mp h
  obtain ⟨cs, hcs⟩ := List.head?_eq_some_iff.mp hhead
  have hstart := seenWords_append (List.not_mem_nil) hc cs
  rw [show seenWords [] = [] from rfl, List.nil_append, List.nil_append] at hstart
  simp only [shownWords]
  rw [String.toList_append, hcs, seenWords_append hs hc, hstart, List.map_append]

theorem Joins.head?_append {ws : List String} (h : Joins gap ws) (rest : String) :
    (gap ++ rest).toList.head?.any isBetween = true := by
  obtain ⟨c, hhead, hc⟩ := (Option.any_eq_true _ _).mp h.1
  rw [String.toList_append, List.head?_append, hhead]
  exact hc

theorem Joins.shownWords_append {ws : List String} (h : Joins gap ws) (hs : IsPlain s)
    (rest : String) : shownWords (s ++ (gap ++ rest)) = shownWords s ++ (ws ++ shownWords rest) := by
  rw [shownWords_append_of_head (h.head?_append rest) hs, h.2.shownWords_append]

theorem shownWords_paint (color : Bool) (style : Style) (s : String) :
    shownWords (style.paint color s) = shownWords s := by
  rw [shownWords, seenWords, Style.visible_paint, shownWords, seenWords]

theorem shownWords_paint_append (color : Bool) (style : Style) (hs : IsPlain s) (rest : String) :
    shownWords (style.paint color s ++ rest) = shownWords (s ++ rest) := by
  rw [shownWords, seenWords, String.toList_append, Style.visible_paint_append color style hs,
    ← Style.visible_append_of_plain hs, ← String.toList_append, shownWords, seenWords]

theorem shownWords_spaces_append (n : Nat) (rest : String) :
    shownWords (String.ofList (List.replicate n ' ') ++ rest) = shownWords rest := by
  have hspaces : ∀ cs, seenWords (List.replicate n ' ' ++ cs) = seenWords cs := by
    intro cs
    induction n with
    | zero => rfl
    | succ n ih => exact ih
  rw [shownWords, String.toList_append, String.toList_ofList, hspaces, shownWords]

theorem shownWords_alignRight (width : Nat) (s : String) :
    shownWords (alignRight width s) = shownWords s := shownWords_spaces_append _ s

theorem shownWords_alignRight_append (width : Nat) (s rest : String) :
    shownWords (alignRight width s ++ rest) = shownWords (s ++ rest) := by
  rw [alignRight, String.append_assoc, shownWords_spaces_append]

/-- Spaces may be added in front. -/
theorem Joins.spaces_append {ws : List String} (h : Joins gap ws) (n : Nat) :
    Joins (String.ofList (List.replicate n ' ') ++ gap) ws := by
  obtain ⟨hhead, hplain, hend, hwords⟩ := h
  refine ⟨?_, ?_, ?_, ?_⟩
  · rw [String.toList_append, String.toList_ofList]
    cases n with
    | zero => exact hhead
    | succ n => rfl
  · intro hmem
    rw [String.toList_append, String.toList_ofList] at hmem
    rcases List.mem_append.mp hmem with hspace | hgap
    · exact absurd (List.eq_of_mem_replicate hspace) (by decide)
    · exact hplain hgap
  · obtain ⟨c, hlast, hc⟩ := (Option.any_eq_true _ _).mp hend
    rw [String.toList_append, List.getLast?_append, hlast]
    exact hc
  · rw [shownWords_spaces_append, hwords]

theorem Joins.shownWords_alignLeft_append {ws : List String} (h : Joins gap ws) (hs : IsPlain s)
    (width : Nat) (rest : String) :
    shownWords (alignLeft width s ++ (gap ++ rest)) =
      shownWords s ++ (ws ++ shownWords rest) := by
  rw [alignLeft, String.append_assoc, ← @String.append_assoc _ gap,
    (h.spaces_append _).shownWords_append hs]

theorem shownWords_intercalate {ws : List String} (h : Joins gap []) (hwords : ∀ w ∈ ws, IsWord w) :
    shownWords (gap.intercalate ws) = ws := by
  induction ws with
  | nil =>
      rw [String.intercalate_nil]
      rfl
  | cons w ws ih =>
      obtain ⟨hw, hws⟩ := List.forall_mem_cons.mp hwords
      cases ws with
      | nil => rw [String.intercalate_singleton, shownWords_word hw]
      | cons v vs =>
          rw [String.intercalate_cons_cons, String.append_assoc, h.shownWords_append hw.isPlain,
            shownWords_word hw, ih hws]
          rfl

end

/-! ### Rows -/

/-- What comes behind the end of a style, if a style ends here. -/
def behindReset : List Char → List Char
  | '\x1b' :: '[' :: '0' :: 'm' :: rest => rest
  | rest => rest

/-- The number that is written in digits. -/
def number? (s : String) : Option Nat :=
  let n := Nat.ofDigitChars 10 s.toList 0
  if toString n = s then some n else none

theorem number?_toString (n : Nat) : number? (toString n) = some n := by
  have hvalue : Nat.ofDigitChars 10 (toString n).toList 0 = n := by
    rw [Nat.toString_eq_repr, Nat.toList_repr, Nat.ofDigitChars_ten_toDigits]
  simp only [number?, hvalue, if_true]

/-- Reads a row of a heat listing: the numbers that are seen before the first bar, and the text
behind the space that comes after it. -/
def readRow? (printed : String) : Option HeatRow :=
  let gutter := printed.toList.takeWhile (· != '|')
  match shownWords (String.ofList gutter),
      behindReset ((printed.toList.dropWhile (· != '|')).drop 1) with
  | [line, score], ' ' :: text => do return ⟨← number? line, ← number? score, text⟩
  | _, _ => none

section
variable (row : HeatRow)

/-- The numbers of a row, as they are printed. -/
def rowNumbers : String := alignRight 4 (toString row.line) ++ " " ++ alignRight 4 (toString row.score)

theorem shownWords_rowNumbers :
    shownWords (rowNumbers row ++ " ") = [toString row.line, toString row.score] := by
  have hline := isWord_toString row.line
  have hscore := isWord_toString row.score
  have hjoins : Joins " " [] := by decide
  rw [rowNumbers, String.append_assoc, String.append_assoc, shownWords_alignRight_append,
    hjoins.shownWords_append hline.isPlain, shownWords_alignRight_append,
    shownWords_append_of_head (by decide) hscore.isPlain, shownWords_word hline,
    shownWords_word hscore]
  rfl

theorem of_mem_rowNumbers {c : Char} (h : c ∈ (rowNumbers row).toList) : c ≠ '\x1b' ∧ c ≠ '|' ∧ c ≠ '\n' := by
  have hnumber : ∀ n : Nat, c ∈ (alignRight 4 (toString n)).toList → c ≠ '\x1b' ∧ c ≠ '|' ∧ c ≠ '\n' := by
    intro n hmem
    rw [alignRight, String.toList_append, String.toList_ofList, Nat.toString_eq_repr,
      Nat.toList_repr] at hmem
    rcases List.mem_append.mp hmem with hspace | hdigit
    · rw [List.eq_of_mem_replicate hspace]
      decide
    · exact Json.of_mem_toDigits (fun c => c ≠ '\x1b' ∧ c ≠ '|' ∧ c ≠ '\n') (by decide) hdigit
  rw [rowNumbers, String.toList_append, String.toList_append] at h
  rcases List.mem_append.mp h with h | hscore
  · rcases List.mem_append.mp h with hline | hspace
    · exact hnumber row.line hline
    · rw [List.mem_singleton.mp hspace]
      decide
  · exact hnumber row.score hscore

theorem isPlain_rowNumbers : IsPlain (rowNumbers row) := fun hmem =>
  (of_mem_rowNumbers row hmem).1 rfl

theorem toList_heatRow (color : Bool) (bands : Bands) : (heatRow color bands row).toList =
    (if color then (heatStyle (.classify bands row.score)).sequence else []) ++
      (rowNumbers row ++ " |").toList ++ (if color then Style.reset else []) ++ ' ' :: row.text := by
  have hplain : IsPlain (rowNumbers row ++ " |") := (isPlain_rowNumbers row).append (by decide)
  rw [heatRow, String.toList_append, String.toList_append, String.toList_ofList]
  show ((heatStyle _).paint color (rowNumbers row ++ " |")).toList ++ _ ++ _ = _
  rw [Style.toList_paint color _ hplain, String.toList_ofList, List.append_assoc _ [' ']]
  rfl

/-- A row is a single line if its text is. -/
theorem not_mem_heatRow {row : HeatRow} (h : '\n' ∉ row.text) (color : Bool) (bands : Bands) :
    '\n' ∉ (heatRow color bands row).toList := by
  have hstyle : '\n' ∉
      (if color then (heatStyle (.classify bands row.score)).sequence else []) := by
    cases color with
    | false => exact List.not_mem_nil
    | true => cases heatStyle (.classify bands row.score) <;> decide
  have hreset : '\n' ∉ (if color then Style.reset else []) := by
    cases color <;> decide
  have hnumbers : '\n' ∉ (rowNumbers row).toList := fun hmem => (of_mem_rowNumbers row hmem).2.2 rfl
  have hbar : '\n' ∉ " |".toList := by decide
  rw [toList_heatRow, String.toList_append]
  simp only [List.mem_append, List.mem_cons, not_or]
  exact ⟨⟨⟨hstyle, hnumbers, hbar⟩, hreset⟩, by decide, h⟩

/-- **A row can be read back**, be it painted or not. -/
theorem readRow?_heatRow (color : Bool) (bands : Bands) :
    readRow? (heatRow color bands row) = some row := by
  let style := heatStyle (.classify bands row.score)
  let front := (if color then style.sequence else []) ++ (rowNumbers row ++ " ").toList
  let behind := (if color then Style.reset else []) ++ ' ' :: row.text
  have hsplit : (heatRow color bands row).toList = front ++ '|' :: behind := by
    rw [toList_heatRow]
    simp [front, behind, style]
  have hfront : '|' ∉ front := by
    have hstyle : '|' ∉ (if color then style.sequence else []) := by
      cases color with
      | false => exact List.not_mem_nil
      | true => cases style <;> decide
    simp only [front, String.toList_append, List.mem_append, not_or]
    exact ⟨hstyle, fun hmem => (of_mem_rowNumbers row hmem).2.1 rfl, by decide⟩
  have hwords : shownWords (String.ofList front) = [toString row.line, toString row.score] := by
    have hvisible := Style.visible_front_append color style (rowNumbers row ++ " ").toList
    rw [← shownWords_rowNumbers, shownWords, seenWords, String.toList_ofList, hvisible, shownWords,
      seenWords]
  have hbehind : behindReset behind = ' ' :: row.text := by
    cases color <;> rfl
  obtain ⟨htake, hdrop⟩ := Text.span_ne hfront behind
  unfold readRow?
  rw [hsplit, htake, hdrop]
  simp only [hwords, List.drop_succ_cons, List.drop_zero, hbehind]
  simp only [number?_toString]
  rfl

end

/-! ### Files -/

theorem splitLines_lines {l : List String} (h : ∀ s ∈ l, '\n' ∉ s.toList) :
    Text.splitLines (lines l).toList = l.map String.toList ++ [[]] := by
  have htext : (lines l).toList = (l.map String.toList).flatMap (· ++ ['\n']) := by
    rw [lines, String.toList_join, List.flatMap_map, List.flatMap_map]
    exact congrArg (List.flatMap · l) (funext fun s => String.toList_append)
  rw [Text.splitLines, htext]
  exact Text.pieces_ended (List.forall_mem_map.mpr h)

/-- The listing shows all rows. -/
theorem map_readRow?_heatListing (color : Bool) (bands : Bands) (source : String) (b : Breakdown) :
    (heatListing color bands source b).map readRow? = (HeatRow.listing source b).map some := by
  rw [heatListing, List.map_map]
  apply List.map_congr_left
  intro row _
  rw [Function.comp_apply, readRow?_heatRow]

/-- A line that shows a method or class: its name, and what it scores. -/
def ShowsScope (e : String × ScopeScore) (printed : List String) : Prop :=
  ∃ gap score, printed = ["    " ++ e.1 ++ gap ++ score] ∧ Joins gap [] ∧
    shownWords score = ["DC", toString e.2.dc, "CC", toString e.2.cc]

/-- A line that shows what was found nested under the occurrences at a depth. -/
def ShowsNested (e : Nat × SortedMap Construct Nat) (printed : String) : Prop :=
  shownWords printed = ["at", "d" ++ toString e.1, "contains"] ++
    e.2.entries.map fun k => k.1.name ++ ":" ++ toString k.2

/-- Lines that show a construct: how often it was found, how often at each depth, and what was
nested under it. -/
def ShowsStructure (e : Construct × StructureRecord) (printed : List String) : Prop :=
  ∃ head nested, printed = head :: nested ∧
    shownWords head = [e.1.name, "x" ++ toString e.2.count] ++
      e.2.levelCounts.entries.map (fun l => "d" ++ toString l.1 ++ ":" ++ toString l.2) ∧
    List.Forall₂ ShowsNested (e.2.nestedConditions.entries.filter fun n => !n.2.isEmpty) nested

/-- Lines that show a part of a report, which is left out if there is nothing in it. -/
def ShowsPart {α : Type} (title : String) (shows : α → List String → Prop) (l : List α)
    (printed : List String) : Prop :=
  l = [] ∧ printed = [] ∨
    ∃ heading items, printed = "" :: heading :: items.flatten ∧ shownWords heading = [title] ∧
      List.Forall₂ shows l items

/-- Lines that show a file: its path, its language and totals, a row for every line, and what was
found in it. -/
def ShowsFile (f : FileAnalysis) (printed : List String) : Prop :=
  ∃ title totals rows methods classes structures,
    printed = [title, totals, ""] ++ rows ++ methods ++ classes ++ structures ∧
    Style.visible title.toList = Style.visible f.path.text.toList ∧
    shownWords totals = ["language:", f.language.tag, "DC", toString f.breakdown.dc, "CC",
      toString f.breakdown.cc] ∧
    rows.map readRow? = (HeatRow.listing f.source f.breakdown).map some ∧
    ShowsPart "Methods" ShowsScope f.breakdown.methods.entries methods ∧
    ShowsPart "Classes" ShowsScope f.breakdown.classes.entries classes ∧
    ShowsPart "Structures" ShowsStructure f.breakdown.structures.entries structures

theorem showsPart {α : Type} {shows : α → List String → Prop} (color : Bool) {title : String}
    (h : IsWord title) {l : List α} {print : α → List String}
    (hshows : ∀ a ∈ l, shows a (print a)) :
    ShowsPart title shows l
      (if l.isEmpty then [] else heading color title ++ l.flatMap print) := by
  cases hl : l with
  | nil => exact .inl ⟨rfl, rfl⟩
  | cons a as =>
      have hleads : Leads "  " [] := by decide
      have hheading : shownWords ("  " ++ Style.boldCyan.paint color title) = [title] := by
        rw [hleads.shownWords_append, shownWords_paint, shownWords_word h]
        rfl
      rw [← hl]
      refine .inr ⟨_, l.map print, ?_, hheading, ?_⟩
      · rw [hl, List.flatMap_def]
        rfl
      · exact List.forall₂_map_right_iff.mpr (List.forall₂_same.mpr hshows)

theorem showsScope_scopeLine (e : String × ScopeScore) : ShowsScope e [scopeLine e.1 e.2] := by
  have hdc := isWord_toString e.2.dc
  have hcc := isWord_toString e.2.cc
  have hleads : Leads "DC " ["DC"] := by decide
  have hjoins : Joins "  CC " ["CC"] := by decide
  have hgap : Joins " " [] := by decide
  refine ⟨String.ofList (List.replicate (32 - e.1.length) ' ') ++ " ",
    "DC " ++ (alignRight 5 (toString e.2.dc) ++ ("  CC " ++ alignRight 3 (toString e.2.cc))),
    ?_, hgap.spaces_append _, ?_⟩
  · have hliteral : " DC " = " " ++ "DC " := rfl
    simp only [scopeLine, alignLeft, String.append_assoc, hliteral]
  · rw [hleads.shownWords_append, shownWords_alignRight_append,
      hjoins.shownWords_append hdc.isPlain, shownWords_alignRight, shownWords_word hdc,
      shownWords_word hcc]
    rfl

theorem showsPart_scopes (color : Bool) {title : String} (h : IsWord title)
    (m : SortedMap String ScopeScore) :
    ShowsPart title ShowsScope m.entries (scopes color title m) := by
  unfold scopes
  rw [List.map_eq_flatMap]
  exact showsPart color h fun e _ => showsScope_scopeLine e

theorem isWord_name (k : Construct) : IsWord k.name := by
  cases k <;> decide

theorem isWord_count (k : Construct) (n : Nat) : IsWord (k.name ++ ":" ++ toString n) :=
  ((isWord_name k).append (by decide)).append (isWord_toString n)

theorem isWord_level (d n : Nat) : IsWord ("d" ++ toString d ++ ":" ++ toString n) := by
  have hd : IsWord "d" := by decide
  exact ((hd.append (isWord_toString d)).append (by decide)).append (isWord_toString n)

theorem showsNested_nestedLine (color : Bool) (e : Nat × SortedMap Construct Nat) :
    ShowsNested e (nestedLine color e.1 e.2) := by
  have hdepth : IsWord ("d" ++ toString e.1) :=
    IsWord.append (by decide) (isWord_toString e.1)
  have hindent : Leads "      " [] := by decide
  have hat : Leads "at " ["at"] := by decide
  have hcontains : Joins " contains " ["contains"] := by decide
  have hcomma : Joins ", " [] := by decide
  have hplain : IsPlain ("at d" ++ toString e.1 ++ " contains") :=
    (IsPlain.append (by decide) (isWord_toString e.1).isPlain).append (by decide)
  have hparts : ∀ rest : String, "at d" ++ toString e.1 ++ " contains" ++ (" " ++ rest) =
      "at " ++ ("d" ++ toString e.1 ++ (" contains " ++ rest)) := by
    intro rest
    simp [String.ext_iff, String.append_assoc]
  unfold ShowsNested nestedLine
  rw [String.append_assoc, String.append_assoc, hindent.shownWords_append,
    shownWords_paint_append color _ hplain, hparts, hat.shownWords_append,
    hcontains.shownWords_append hdepth.isPlain, shownWords_word hdepth,
    shownWords_intercalate hcomma]
  · rfl
  · intro w hw
    obtain ⟨k, -, rfl⟩ := List.mem_map.mp hw
    exact isWord_count k.1 k.2

theorem showsStructure_structureLines (color : Bool) (e : Construct × StructureRecord) :
    ShowsStructure e (structureLines color e.1 e.2) := by
  have hname := isWord_name e.1
  have hcount : IsWord ("x" ++ toString e.2.count) :=
    IsWord.append (by decide) (isWord_toString e.2.count)
  have hindent : Leads "    " [] := by decide
  have hgap : Joins " " [] := by decide
  refine ⟨_, _, rfl, ?_, ?_⟩
  · -- the count is padded together with the letter in front of it
    let gap := String.ofList (List.replicate (4 - (toString e.2.count).length) ' ') ++ " "
    have hcounted : ∀ rest : String, " x" ++ (alignLeft 4 (toString e.2.count) ++ (" " ++ rest)) =
        " " ++ ("x" ++ toString e.2.count ++ (gap ++ rest)) := by
      intro rest
      have hliteral : " x" = " " ++ "x" := rfl
      simp only [gap, hliteral, alignLeft, String.append_assoc]
    simp only [String.append_assoc]
    rw [hcounted, hindent.shownWords_append, hgap.shownWords_alignLeft_append hname.isPlain,
      (hgap.spaces_append _).shownWords_append hcount.isPlain, shownWords_paint,
      shownWords_word hname, shownWords_word hcount, shownWords_intercalate hgap]
    · rfl
    · intro w hw
      obtain ⟨l, -, rfl⟩ := List.mem_map.mp hw
      simpa only [String.append_assoc] using isWord_level l.1 l.2
  · exact List.forall₂_map_right_iff.mpr (List.forall₂_same.mpr fun n _ =>
      showsNested_nestedLine color n)

theorem isWord_tag (l : Language) : IsWord l.tag := by
  cases l <;> decide

theorem showsFile_fileLines (color : Bool) (bands : Bands) (f : FileAnalysis) :
    ShowsFile f (fileLines color bands f) := by
  refine ⟨_, _, _, _, _, _, rfl, Style.visible_paint .., ?_,
    map_readRow?_heatListing color bands f.source f.breakdown,
    showsPart_scopes color (by decide) _, showsPart_scopes color (by decide) _,
    showsPart color (by decide) fun e _ => showsStructure_structureLines color e⟩
  have htag := isWord_tag f.language
  have hdc := isWord_toString f.breakdown.dc
  have hcc := isWord_toString f.breakdown.cc
  have hlead : Leads "  language: " ["language:"] := by decide
  have hgap : Joins "  " [] := by decide
  have hspace : Joins " " [] := by decide
  have hplain : IsPlain "DC" ∧ IsPlain "CC" := by decide
  simp only [String.append_assoc]
  rw [hlead.shownWords_append, hgap.shownWords_append htag.isPlain, shownWords_word htag,
    shownWords_paint_append color _ hplain.1, hspace.shownWords_append hplain.1,
    hgap.shownWords_append hdc.isPlain, shownWords_word hdc,
    shownWords_paint_append color _ hplain.2, hspace.shownWords_append hplain.2,
    shownWords_word hcc]
  rfl

/-! ### Scans -/

/-- A line that shows a failure: the path of the file, and what is said of it. -/
def ShowsFailure (f : FileFailure) (printed : String) : Prop :=
  ∃ label, printed = label ++ " " ++ f.path.text ++ ": " ++ f.message ∧
    shownWords label = ["failed:"]

/-- Lines that show a scan: all its files, all its failures, and the totals. -/
def ShowsScan (r : ScanReport) (elapsed : String) (printed : List String) : Prop :=
  ∃ files failures totals,
    printed = files.flatMap (fun file => file ++ [""]) ++ failures ++ [totals] ∧
    List.Forall₂ ShowsFile r.files files ∧ List.Forall₂ ShowsFailure r.failures failures ∧
    shownWords totals = [toString r.files.length, "file(s)", "total", "DC", toString r.totalDc,
      "in"] ++ shownWords (elapsed ++ "ms")

theorem showsFailure_failureLine (color : Bool) (f : FileFailure) :
    ShowsFailure f (failureLine color f) := by
  refine ⟨Style.boldRed.paint color "failed:", rfl, ?_⟩
  rw [shownWords_paint]
  rfl

theorem shownWords_totalsLine (r : ScanReport) (elapsed : String) :
    shownWords (totalsLine r elapsed) = [toString r.files.length, "file(s)", "total", "DC",
      toString r.totalDc, "in"] ++ shownWords (elapsed ++ "ms") := by
  have hfiles := isWord_toString r.files.length
  have hdc := isWord_toString r.totalDc
  have htotal : Joins " file(s), total DC " ["file(s)", "total", "DC"] := by decide
  have hin : Joins " in " ["in"] := by decide
  unfold totalsLine
  simp only [String.append_assoc]
  rw [htotal.shownWords_append hfiles.isPlain, hin.shownWords_append hdc.isPlain,
    shownWords_word hfiles, shownWords_word hdc]
  rfl

/-- **A report leaves nothing out.** -/
theorem exists_showsScan (color : Bool) (bands : Bands) (elapsed : String) (r : ScanReport) :
    ∃ printed, scan color bands elapsed r = lines printed ∧ ShowsScan r elapsed printed := by
  refine ⟨_, rfl, r.files.map (fileLines color bands), r.failures.map (failureLine color),
    totalsLine r elapsed, by rw [List.flatMap_map], ?_, ?_, shownWords_totalsLine r elapsed⟩
  · exact List.forall₂_map_right_iff.mpr (List.forall₂_same.mpr fun f _ =>
      showsFile_fileLines color bands f)
  · exact List.forall₂_map_right_iff.mpr (List.forall₂_same.mpr fun f _ =>
      showsFailure_failureLine color f)

/-! ### Scans as JSON -/

/-- The breakdowns of a scan by path. -/
def byPath (r : ScanReport) : SortedMap String Breakdown :=
  .ofList (r.files.map fun f => (f.path.text, f.breakdown))

/-- The breakdowns by path that a JSON text stands for. -/
def parseByPath? (text : String) : Option (SortedMap String Breakdown) :=
  (Json.parse? text.toList).bind (Wire.toMap? Wire.textKey? Wire.toBreakdown?)

/-- Of the files that are shown alike the last one counts. -/
theorem get?_byPath (r : ScanReport) (path : String) : (byPath r).get? path =
    (r.files.filter fun f => f.path.text = path).getLast?.map (·.breakdown) := by
  rw [byPath, SortedMap.get?_ofList, List.filter_map, List.getLast?_map, Option.map_map]
  rfl

theorem exists_get?_byPath {r : ScanReport} {f : FileAnalysis} (hf : f ∈ r.files) :
    ∃ g ∈ r.files, g.path.text = f.path.text ∧
      (byPath r).get? f.path.text = some g.breakdown := by
  have hmem : f ∈ r.files.filter fun g => g.path.text = f.path.text :=
    List.mem_filter.mpr ⟨hf, decide_eq_true rfl⟩
  have hlast := List.getLast?_eq_some_getLast (List.ne_nil_of_mem hmem)
  obtain ⟨hg, htext⟩ := List.mem_filter.mp (List.mem_of_getLast? hlast)
  refine ⟨_, hg, of_decide_eq_true htext, ?_⟩
  rw [get?_byPath, hlast]
  rfl

/-- Two names of one byte each are shown alike, and the second file takes the place of the first. -/
example : let named (b : UInt8) (dc : Nat) : FileAnalysis :=
      ⟨⟨⟨[b]⟩⟩, .python, "", { Breakdown.baseline with dc := dc }⟩
    (byPath ⟨[named 0xff 10, named 0xfe 20], []⟩).entries.map (fun e => (e.1, e.2.dc)) =
      [("\uFFFD", 20)] := by decide

/-- The JSON text binds every path that is shown to the breakdown of the last file it is shown
for. -/
structure ShowsByPath (r : ScanReport) (text : String)
    (breakdowns : SortedMap String Breakdown) : Prop where
  text_eq : text = (Wire.ofTextMap Wire.ofBreakdown breakdowns).pretty ++ "\n"
  /-- The text can be read back. -/
  parse : (∀ f ∈ r.files, f.breakdown.Fits) →
    ∃ doc, text = doc ++ "\n" ∧ parseByPath? doc = some breakdowns
  get? : ∀ path, breakdowns.get? path =
    (r.files.filter fun f => f.path.text = path).getLast?.map (·.breakdown)
  /-- No path is left out. -/
  complete : ∀ f ∈ r.files, (breakdowns.get? f.path.text).isSome = true
  /-- A file that no other one is shown like has its own breakdown. -/
  own : ∀ f ∈ r.files, (∀ g ∈ r.files, g.path.text = f.path.text → g = f) →
    breakdowns.get? f.path.text = some f.breakdown

theorem showsByPath_scanJson (r : ScanReport) :
    ShowsByPath r (scanJson r ++ "\n") (byPath r) where
  text_eq := rfl
  parse h := by
    refine ⟨scanJson r, rfl, ?_⟩
    have hlegible := Wire.legible_ofTextMap Wire.legible_ofBreakdown (byPath r)
    have hread : Wire.toMap? Wire.textKey? Wire.toBreakdown?
        (Wire.ofTextMap Wire.ofBreakdown (byPath r)) = some (byPath r) := by
      apply Wire.toMap?_ofTextMap
      intro e he
      obtain ⟨f, hf, rfl⟩ := List.mem_map.mp (SortedMap.mem_of_mem_ofList he)
      exact Wire.toBreakdown?_ofBreakdown (h f hf)
    show (Json.parse? (Wire.ofTextMap Wire.ofBreakdown (byPath r)).pretty.toList).bind _ = _
    rw [Json.parse?_pretty hlegible, Option.bind_some, hread]
  get? := get?_byPath r
  complete f hf := by
    obtain ⟨g, -, -, hget⟩ := exists_get?_byPath hf
    rw [hget]
    rfl
  own f hf hown := by
    obtain ⟨g, hg, htext, hget⟩ := exists_get?_byPath hf
    rw [hget, hown g hg htext]

end Report

end DecisionScore
