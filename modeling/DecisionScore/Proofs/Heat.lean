import Mathlib.Data.List.Nodup
import DecisionScore.Report.Heat
import DecisionScore.Proofs.Analysis
import DecisionScore.Proofs.Python.Rows
import DecisionScore.Proofs.Report

/-! # The heat listing accounts for the score

A scan numbers the pieces of a text between line feeds, a tree has the rows of its parser, and the
heat listing numbers the lines that are shown: an empty piece at the end is none of them.  The three
agree wherever there is a score.  A line that is scored has something on it (`IsFilled`), be it
scored by a scan (`Brace.isFilled_of_mem_keys`) or by the walk of a tree
(`Python.StartsIn.isFilled`), and a line with something on it is shown (`IsFilled.shown`).  So no
score is left out of what is printed (`listing_accounts`).

The parser is taken as it comes: all that counts is where it has the constructs start. -/

namespace DecisionScore

/-! ### Lines that are shown -/

namespace Text

/-- A piece with something on it is shown. -/
theorem lt_length_finishLines {ls : List (List Char)} {i : Nat} {l : List Char}
    (h : ls[i]? = some l) (hl : l ≠ []) : i < (finishLines ls).length := by
  induction ls generalizing i with
  | nil => cases h
  | cons a ls ih =>
      cases ls with
      | nil =>
          obtain ⟨rfl, rfl⟩ : i = 0 ∧ a = l := by
            cases i with
            | zero => exact ⟨rfl, Option.some.inj h⟩
            | succ i => cases h
          rw [finishLines, if_neg (by simpa using hl)]
          exact Nat.one_pos
      | cons b ls =>
          show i < (finishLines (b :: ls)).length + 1
          cases i with
          | zero => exact Nat.succ_pos _
          | succ i => exact Nat.succ_lt_succ (ih h)

end Text

/-! ### Lines that are scored -/

/-- The line has the number of a piece of the text that has something on it. -/
def IsFilled (source : String) (line : Nat) : Prop :=
  ∃ i l, (Text.splitLines source.toList)[i]? = some l ∧ l ≠ [] ∧ line = i + 1

/-- A line that has something on it is shown. -/
theorem IsFilled.shown {source : String} {line : Nat} (h : IsFilled source line) :
    1 ≤ line ∧ line ≤ (Text.shownLines source.toList).length := by
  obtain ⟨i, l, hi, hl, rfl⟩ := h
  exact ⟨Nat.succ_pos i, Text.lt_length_finishLines hi hl⟩

/-- A scan scores lines that have something on them. -/
theorem Brace.isFilled_of_mem_keys {language : Language} {extra : List String} {source : String}
    {line : Nat} (h : line ∈ (Brace.breakdown language extra source).lineScores.keys) :
    IsFilled source line := by
  rw [SortedMap.mem_keys] at h
  obtain ⟨n, hn⟩ := Option.isSome_iff_exists.mp h
  have hpos := (Brace.consistent_of_text language extra source).1.lines_pos line n hn
  have hscore : (Brace.breakdown language extra source).lineScore line = n := by
    rw [Breakdown.lineScore, hn]
    rfl
  unfold Brace.breakdown at hscore
  rw [Scanner.part_finish (·.lineScore line) (fun _ _ => rfl) (fun _ _ => rfl),
    Scanner.lineScore_readLines] at hscore
  -- the line has a score, so there is a construct on it
  have hne : (Scanner.occurrences (language.excludedIdentifiers ++ extra) 1
      (Text.splitLines source.toList) .initial).filter (fun o => o.line = line) ≠ [] := by
    intro hnil
    rw [hnil] at hscore
    obtain rfl : 0 = n := hscore
    exact absurd hpos (by decide)
  obtain ⟨o, ho⟩ := List.exists_mem_of_ne_nil _ hne
  obtain ⟨ho, hline⟩ := List.mem_filter.mp ho
  obtain ⟨i, raw, hraw, ho, hskip⟩ := Scanner.exists_line_of_mem_occurrences _ ho
  refine ⟨i, raw, hraw, ?_, ?_⟩
  · rintro rfl
    cases hskip
  · rw [← of_decide_eq_true hline, ho, Nat.add_comm]

/-- A walk scores lines that have something on them, wherever the constructs start. -/
theorem Python.StartsIn.isFilled {source : String} {t : Python.Node} {start : Nat → Nat}
    (h : StartsIn source t start) {line : Nat}
    (hline : line ∈ (Walk.breakdown t).lineScores.keys) : IsFilled source line := by
  obtain ⟨n, hn, hconstruct, rfl⟩ := Walk.exists_construct_of_mem_keys hline
  obtain ⟨before, c, after, htext, hc, hrow⟩ := h.constructsIn n hn hconstruct
  obtain ⟨l, hl, hne⟩ := Text.exists_piece hc before after
  refine ⟨n.row, l, ?_, hne, rfl⟩
  rw [Text.splitLines, htext, hrow]
  exact hl

/-- **Every analysis scores lines that have something on them**, if the parser has the constructs
start in the text. -/
theorem isFilled_of_mem_keys {parser : String → Option Python.Node} {start : Nat → Nat}
    {config : Config} {language : Language} {source : String} {b : Breakdown}
    (hstart : language.frontend = .tree → ∀ t, parser source = some t →
      Python.StartsIn source t start)
    (h : analyzeBy parser config language source = .ok b) {line : Nat}
    (hline : line ∈ b.lineScores.keys) : IsFilled source line := by
  cases language with
  | java =>
      obtain rfl : Brace.breakdown .java _ source = b := Except.ok.inj h
      exact Brace.isFilled_of_mem_keys hline
  | cpp =>
      obtain rfl : Brace.breakdown .cpp _ source = b := Except.ok.inj h
      exact Brace.isFilled_of_mem_keys hline
  | python =>
      obtain rfl : Python.breakdownBy parser source = b := Except.ok.inj h
      unfold Python.breakdownBy at hline
      cases hparse : parser source with
      | none =>
          rw [hparse] at hline
          cases hline
      | some t =>
          rw [hparse] at hline
          exact (hstart rfl t hparse).isFilled hline

/-! ### The listing -/

namespace HeatRow

variable (b : Breakdown) (ls : List (List Char)) (first : Nat)

theorem map_text_number : (number b first ls).map (·.text) = ls := by
  induction ls generalizing first with
  | nil => rfl
  | cons l ls ih => rw [number, List.map_cons, ih]

theorem map_line_number : (number b first ls).map (·.line) = List.range' first ls.length := by
  induction ls generalizing first with
  | nil => rfl
  | cons l ls ih => rw [number, List.map_cons, ih, List.length_cons, List.range'_succ]

theorem score_of_mem_number : ∀ row ∈ number b first ls, row.score = b.lineScore row.line := by
  induction ls generalizing first with
  | nil => simp [number]
  | cons l ls ih =>
      intro row hrow
      rcases List.mem_cons.mp hrow with rfl | hrow
      · rfl
      · exact ih (first + 1) row hrow

theorem map_score_number : (number b first ls).map (·.score) =
    (List.range' first ls.length).map b.lineScore := by
  rw [← map_line_number b, List.map_map]
  exact List.map_congr_left (score_of_mem_number b ls first)

end HeatRow

/-- The rows of a listing have all scores of a breakdown whose lines are shown. -/
theorem sum_listing {b : Breakdown} {source : String} (hkeys : ∀ line ∈ b.lineScores.keys,
    1 ≤ line ∧ line ≤ (Text.shownLines source.toList).length) :
    ((HeatRow.listing source b).map (·.score)).sum = b.lineScores.values.sum := by
  rw [HeatRow.listing, HeatRow.map_score_number]
  refine b.lineScores.sum_get? List.nodup_range' fun line hline => ?_
  obtain ⟨hone, hlast⟩ := hkeys line hline
  exact List.mem_range'_1.mpr ⟨hone, by omega⟩

/-- A line that is shown has no line feed in it. -/
theorem Text.not_mem_of_mem_shownLines {source l : List Char} (h : l ∈ shownLines source) :
    '\n' ∉ l := by
  have hfinish : ∀ ls : List (List Char), (∀ l ∈ ls, '\n' ∉ l) → ∀ l ∈ finishLines ls, '\n' ∉ l := by
    intro ls hls
    fun_induction finishLines ls with
    | case1 => simp
    | case2 => simp
    | case3 last hlast => exact hls
    | case4 line rest hrest ih =>
        obtain ⟨hline, hrest⟩ := List.forall_mem_cons.mp hls
        refine List.forall_mem_cons.mpr ⟨fun hmem => hline ?_, ih hrest⟩
        unfold dropReturn at hmem
        split at hmem
        · exact List.dropLast_subset _ hmem
        · exact hmem
  exact hfinish _ (fun l hl => not_mem_of_mem_pieces hl) l h

/-- What is printed of a listing is one line for every row. -/
theorem Report.splitLines_heatListing (color : Bool) (bands : Bands) (source : String)
    (b : Breakdown) : Text.splitLines (lines (heatListing color bands source b)).toList =
      (heatListing color bands source b).map String.toList ++ [[]] := by
  refine splitLines_lines fun printed hprinted => ?_
  obtain ⟨row, hrow, rfl⟩ := List.mem_map.mp hprinted
  have htext : row.text ∈ (HeatRow.listing source b).map (·.text) := List.mem_map_of_mem hrow
  rw [HeatRow.listing, HeatRow.map_text_number] at htext
  exact not_mem_heatRow (Text.not_mem_of_mem_shownLines htext) color bands

/-- **The listing accounts for the whole score.**  Whatever the text, its language and the names
that are excluded, every line with a score is one of those that are shown, as long as the parser of
a text that is scored by its tree has the constructs start in the text.  Printed in whatever
colours, the listing is one line for each of these.  Read back, its rows are numbered from one on,
have the text and the score of their line, and the scores that are printed add up to the total.  On
words of 64 bits the total is this one if it fits; where words wrap around, the scores that are
printed still add up to the total on words. -/
theorem listing_accounts (parser : String → Option Python.Node) (start : Nat → Nat)
    (config : Config) (language : Language) (source : String)
    (hstart : language.frontend = .tree → ∀ t, parser source = some t →
      Python.StartsIn source t start) (color : Bool) (bands : Bands) :
    ∃ b, analyzeBy parser config language source = .ok b ∧
      (∀ line ∈ b.lineScores.keys,
        1 ≤ line ∧ line ≤ (Text.shownLines source.toList).length) ∧
      (∃ (printed : List String) (rows : List HeatRow),
        Text.splitLines (Report.lines (Report.heatListing color bands source b)).toList =
          printed.map String.toList ++ [[]] ∧
        printed.map Report.readRow? = rows.map some ∧
        rows.map (·.text) = Text.shownLines source.toList ∧
        rows.map (·.line) = List.range' 1 (Text.shownLines source.toList).length ∧
        (∀ row ∈ rows, row.score = b.lineScore row.line) ∧
        (rows.map (·.score)).sum = b.dc) ∧
      OnWords (analyzeByOn parser · config language source) b ∧
      ∃ c, analyzeByOn parser .wrapping config language source = some c ∧
        Machine.residue ((HeatRow.listing source c).map (·.score)).sum = c.dc := by
  obtain ⟨b, hb, hwords⟩ := exists_analyzeBy parser config language source
  have hshown : ∀ line ∈ b.lineScores.keys,
      1 ≤ line ∧ line ≤ (Text.shownLines source.toList).length :=
    fun _ hline => (isFilled_of_mem_keys hstart hb hline).shown
  refine ⟨b, hb, hshown, ?_, hwords.words, b.mapScores Machine.residue, hwords.words.wrapping, ?_⟩
  · exact ⟨Report.heatListing color bands source b, HeatRow.listing source b,
      Report.splitLines_heatListing color bands source b,
      Report.map_readRow?_heatListing color bands source b, HeatRow.map_text_number b _ 1,
      HeatRow.map_line_number b _ 1, HeatRow.score_of_mem_number b _ 1,
      (sum_listing hshown).trans hwords.exact.lines_sum⟩
  · obtain ⟨c, hc, hsum⟩ := hwords.wrapping
    obtain rfl : b.mapScores Machine.residue = c :=
      Option.some.inj (hwords.words.wrapping.symm.trans hc)
    rw [sum_listing, hsum]
    intro line hline
    rw [SortedMap.mem_keys, Breakdown.mapScores, SortedMap.get?_mapValues, Option.isSome_map,
      ← SortedMap.mem_keys] at hline
    exact hshown line hline

/-- A text with a blank line in front and two line feeds at its end. -/
def shortText : String := "\nif a:\n  b\n\n"

/-- The tree of the text. -/
def shortTree : Python.Node :=
  .node .phrase none 1 "" [
    .node .ifStatement none 1 "" [
      .node .mark none 1 "if" [], .node .identifier (some .condition) 1 "a" [],
      .node .mark none 1 ":" [],
      .node .phrase (some .consequence) 2 "" [.node .identifier none 2 "b" []]]]

/-- Of the four lines that are printed for the text the second one has the whole score. -/
theorem listing_accounts_short : ∃ b,
    analyzeBy (fun source => if source = shortText then some shortTree else none) {} .python
      shortText = .ok b ∧
    ∃ (printed : List String) (rows : List HeatRow),
      Text.splitLines (Report.lines (Report.heatListing true {} shortText b)).toList =
        printed.map String.toList ++ [[]] ∧
      printed.map Report.readRow? = rows.map some ∧ rows.map (·.line) = [1, 2, 3, 4] ∧
      (rows.map (·.score)).sum = 4 ∧ b.lineScores.entries = [(2, 4)] := by
  let parser : String → Option Python.Node :=
    fun source => if source = shortText then some shortTree else none
  have hrow : ∀ n ∈ Python.nodesFrom shortTree, n.kind.construct?.isSome = true → n.row = 1 := by
    decide
  have hstart : ∀ t, parser shortText = some t → Python.StartsIn shortText t fun _ => 1 := by
    intro t ht
    obtain rfl : shortTree = t := Option.some.inj ht
    refine ⟨fun i n hn hconstruct => ?_, fun i n hn hconstruct => ⟨'i', by decide, by decide⟩⟩
    rw [hrow n (List.mem_of_getElem? hn) hconstruct]
    decide
  obtain ⟨b, hb, -, ⟨printed, rows, hprinted, hread, -, hlines, -, hsum⟩, -⟩ :=
    listing_accounts parser (fun _ => 1) {} .python shortText (fun _ => hstart) true {}
  have htree : b = Python.Walk.breakdown shortTree := (Except.ok.inj hb).symm
  refine ⟨b, hb, printed, rows, hprinted, hread, ?_, ?_, ?_⟩
  · rw [hlines]
    decide
  · rw [hsum, htree, Python.dc_breakdown (by decide)]
    decide +kernel
  · rw [htree]
    decide +kernel

end DecisionScore
