import DecisionScore.Proofs.Python.Words

/-! # What a tree is scored

The breakdown of a tree, put together from what its constructs contribute: exactly, and on words of
64 bits. -/

namespace DecisionScore.Python

open Walk

/-- **Every construct is scored once**, in document order, at the level of its site, and nothing
else is.  So the decisional complexity of a tree and of each of its lines is the sum of what the
constructs there contribute, and the statistics of a kind list its levels in document order.  On
words of 64 bits the walk comes to these sums if and only if the totals fit; otherwise it overflows,
or leaves the residues of the sums.  The totals of a tree of up to `2 ^ 19` nodes fit. -/
theorem constructs_scored {t : Node} (h : Grammatical t) :
    ((sites t).map Site.address).Nodup ∧
      scored [.visit t] .initial = (sites t).filterMap Site.registration? ∧
      (scored [.visit t] .initial).map Registration.dc =
        (constructSites t).map Site.contribution ∧
      (breakdown t).dc = ((constructSites t).map Site.contribution).sum ∧
      (∀ line, (breakdown t).lineScores.get? line = if constructsOn t line = [] then none
        else some ((constructsOn t line).map Site.contribution).sum) ∧
      (∀ k, occurrences (breakdown t).structures k = if levelsOfKind t k = [] then none
        else some ((levelsOfKind t k).length, levelsOfKind t k)) ∧
      OnWords (Walk.breakdownOn · t) (breakdown t) ∧
      (t.size ≤ 2 ^ 19 → Walk.breakdownOn .checked t = some (breakdown t) ∧
        Walk.breakdownOn .wrapping t = some (breakdown t)) := by
  have hs := h.shaped
  exact ⟨nodup_sitesFrom [] t, scored_root hs, map_dc_scored hs, dc_breakdown hs,
    lineScores_breakdown hs, occurrences_breakdown hs, onWords_breakdown t, exact_of_size_le hs⟩

/-- The constructs of the sample: a `try` outside all levels, the `if`, the `while` below it, the
`elif` and the conditional expression in its condition, and the `for` in the `else` clause. -/
theorem constructs_scored_sample : Shaped sample ∧
    (constructSites sample).map Site.level = [0, 1, 2, 2, 2, 3] ∧
    (scored [.visit sample] .initial).map Registration.dc = [1, 10, 12, 28, 20, 6] ∧
    (breakdown sample).dc = 77 ∧ (breakdown sample).lineScores.get? 7 = some 48 ∧
    occurrences (breakdown sample).structures .ifBranch = some (2, [1, 2]) ∧
    (Walk.breakdownOn .wrapping sample).map Breakdown.dc = some 77 ∧
    Walk.breakdownOn (.upTo 76) sample = none := by
  have hshaped : Shaped sample := by decide
  obtain ⟨-, -, hscored, hdc, hlines, hlevels, hwords, hexact⟩ := constructs_scored (.inr hshaped)
  have htotal : (breakdown sample).dc = 77 := by
    rw [hdc]
    decide +kernel
  refine ⟨hshaped, by decide, ?_, htotal, ?_, ?_, ?_, ?_⟩
  · rw [hscored]
    decide +kernel
  · rw [hlines]
    decide +kernel
  · rw [hlevels]
    decide
  · rw [(hexact (by decide +kernel)).2, Option.map_some, htotal]
  · rw [hwords.upTo 76 (by decide), htotal]
    rfl

/-- **The cyclomatic complexity of a tree** is one, and one more for every construct and for every
boolean operator outside all scored conditions. -/
theorem cyclomatic_count {t : Node} (h : Grammatical t) : (breakdown t).cc =
    1 + (sites t).countP Site.isConstruct + (sites t).countP Site.isFreeOperator :=
  cc_breakdown h.shaped

/-- Of the boolean operators of the sample only the one in the head of the `for` statement adds a
path: one is in the condition of the `if`, one in a condition inside that of the `elif`. -/
theorem cyclomatic_count_sample : Shaped sample ∧
    (sites sample).countP (·.node.kind == .booleanOperator) = 3 ∧ (breakdown sample).cc = 8 := by
  have hshaped : Shaped sample := by decide
  refine ⟨hshaped, by decide, ?_⟩
  rw [cyclomatic_count (.inr hshaped)]
  decide

end DecisionScore.Python
