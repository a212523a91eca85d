import DecisionScore.Analysis
import DecisionScore.Proofs.Brace.Words
import DecisionScore.Proofs.Python.Words

/-! # Analyses are consistent

Whatever the text, its language and the names that are excluded, an analysis gives a breakdown,
and the parts of that breakdown fit together, on words as far as its totals fit. -/

namespace DecisionScore

/-- The breakdown of a Python text is consistent, whether or not the text has a reading. -/
theorem Python.consistent_of_text (source : String) : (Python.breakdown source).Consistent := by
  unfold Python.breakdown
  split
  · exact Breakdown.consistent_baseline
  · exact Walk.consistent_breakdown _

/-! ### Any parser -/

section
variable (parser : String → Option Python.Node)

/-- The breakdown of a Python text by the tree that a parser has for it. -/
def Python.breakdownBy (source : String) : Breakdown :=
  match parser source with
  | none => .baseline
  | some tree => Walk.breakdown tree

/-- The breakdown of a Python text on a machine. -/
def Python.breakdownByOn (hold : Machine) (source : String) : Option Breakdown :=
  match parser source with
  | none => some .baseline
  | some tree => Walk.breakdownOn hold tree

/-- The breakdown of a text in a language. -/
def analyzeBy (config : Config) (language : Language) (source : String) :
    Except AnalysisError Breakdown :=
  match language.frontend with
  | .tree =>
    if language.hasGrammar then .ok (Python.breakdownBy parser source)
    else .error (.internal ("no grammar available for " ++ language.tag))
  | .lines => .ok (Brace.breakdown language config.excludedIdentifiers source)

/-- The breakdown of a text in a language, on a machine. -/
def analyzeByOn (hold : Machine) (config : Config) (language : Language) (source : String) :
    Option Breakdown :=
  match language.frontend with
  | .tree => Python.breakdownByOn parser hold source
  | .lines => Brace.breakdownOn hold language config.excludedIdentifiers source

theorem analyzeBy_parse? : analyzeBy Python.parse? = analyze := rfl

theorem Python.consistentOnWords_breakdownBy (source : String) :
    ConsistentOnWords (breakdownByOn parser · source) (breakdownBy parser source) := by
  unfold breakdownByOn breakdownBy
  cases parser source with
  | none =>
      have hbaseline := Breakdown.consistent_baseline
      exact (onWords_of_computes hbaseline.bounded.mapScores_residue
        fun h => Breakdown.some_baseline_eq h).consistent hbaseline
  | some tree => exact (Walk.onWords_breakdown tree).consistent (Walk.consistent_breakdown tree)

theorem Brace.consistentOnWords_breakdown (language : Language) (extra : List String)
    (source : String) : ConsistentOnWords (breakdownOn · language extra source)
      (breakdown language extra source) :=
  (onWords_breakdown language extra source).consistent (consistent_of_text language extra source).1

theorem exists_analyzeBy (config : Config) (language : Language) (source : String) :
    ∃ b, analyzeBy parser config language source = .ok b ∧
      ConsistentOnWords (analyzeByOn parser · config language source) b := by
  cases language with
  | python => exact ⟨_, rfl, Python.consistentOnWords_breakdownBy parser source⟩
  | java => exact ⟨_, rfl, Brace.consistentOnWords_breakdown .java _ source⟩
  | cpp => exact ⟨_, rfl, Brace.consistentOnWords_breakdown .cpp _ source⟩

end

/-- **Every analysis gives a consistent breakdown.**  The scores of the lines add up to the total
and each counts; every record has occurred and is in step with its list of levels; there is a path
for every occurrence and one more; no scope has more than the whole.  Where a text is scored line
by line, in whatever language, there are no other paths, and every construct has a line to itself.
So it is with any parser and any tree.  On words of 64 bits an analysis comes to its breakdown if
and only if the totals fit, which they do for trees of up to `2 ^ 19` nodes and for texts of less
than `2 ^ 31` characters that are scored line by line. -/
theorem analysis_consistent (config : Config) (language : Language) (source : String) :
    (∃ b, analyze config language source = .ok b ∧ b.Consistent ∧
      (language.frontend = .lines → b.OnePerLine)) ∧
    (Python.breakdown source).Consistent ∧
    (Brace.breakdown language config.excludedIdentifiers source).Consistent ∧
    (Brace.breakdown language config.excludedIdentifiers source).OnePerLine ∧
    (∀ parser, ∃ b, analyzeBy parser config language source = .ok b ∧
      ConsistentOnWords (analyzeByOn parser · config language source) b) ∧
    (∀ tree, ConsistentOnWords (Python.Walk.breakdownOn · tree) (Python.Walk.breakdown tree)) ∧
    ConsistentOnWords (Brace.breakdownOn · language config.excludedIdentifiers source)
      (Brace.breakdown language config.excludedIdentifiers source) ∧
    (∀ tree, Python.Shaped tree → tree.size ≤ 2 ^ 19 →
      Python.Walk.breakdownOn .checked tree = some (Python.Walk.breakdown tree) ∧
      Python.Walk.breakdownOn .wrapping tree = some (Python.Walk.breakdown tree)) ∧
    (source.length + 1 ≤ 2 ^ 31 →
      Brace.breakdownOn .checked language config.excludedIdentifiers source =
        some (Brace.breakdown language config.excludedIdentifiers source) ∧
      Brace.breakdownOn .wrapping language config.excludedIdentifiers source =
        some (Brace.breakdown language config.excludedIdentifiers source)) := by
  obtain ⟨hlines, hone⟩ := Brace.consistent_of_text language config.excludedIdentifiers source
  have hwords := Brace.consistentOnWords_breakdown language config.excludedIdentifiers source
  refine ⟨?_, Python.consistent_of_text source, hlines, hone,
    fun parser => exists_analyzeBy parser config language source, fun tree => ?_, hwords,
    fun tree => Python.Walk.exact_of_size_le, fun hlength => ?_⟩
  · cases language with
    | python => exact ⟨_, rfl, Python.consistent_of_text source, fun h => by cases h⟩
    | java => exact ⟨_, rfl, hlines, fun _ => hone⟩
    | cpp => exact ⟨_, rfl, hlines, fun _ => hone⟩
  · exact (Python.Walk.onWords_breakdown tree).consistent (Python.Walk.consistent_breakdown tree)
  · exact hwords.words.of_totals_lt
      (Brace.totals_lt language config.excludedIdentifiers source hlength)

end DecisionScore
