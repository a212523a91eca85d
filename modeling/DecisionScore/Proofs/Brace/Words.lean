import DecisionScore.Proofs.Brace.Budget
import DecisionScore.Proofs.Brace.Sound
import DecisionScore.Proofs.Words

/-! # Scans with machine words

The scan once more, as a program on a `Machine`.  No number that occurs on the way is greater than
the totals of the breakdown at the end, and so the scan comes to its breakdown as far as these fit
(`onWords_breakdown`).  They are bounded by the text (`dc_breakdown_le`), so that a text of less than
`2 ^ 31` characters is scored exactly on words of 64 bits (`breakdown_on_words`). -/

namespace DecisionScore.Brace

open DecisionScore.Text

variable (hold : Machine)

/-! ### Constructs -/

/-- The token weight of a governing text. -/
def textWeightOn (text : List Char) : Option TokenWeight := do
  let logical ← hold (countPairs '&' text + countPairs '|' text)
  let clauses ← hold (logical + text.count '?')
  let conds ← hold (clauses + 1)
  let ops ← hold (logical + text.countP isOperatorChar)
  let operands ← hold (countWordsFrom false text)
  return ⟨conds, ops, operands⟩

/-- What a construct contributes. -/
def Occurrence.dcOn (o : Occurrence) : Option Nat := do
  let tokens ← textWeightOn hold (conditionText o.text o.kind)
  contributionOn hold o.kind o.depth tokens

section
variable {hold} {image : Nat → Nat} {fits : Nat → Bool} (h : hold.Computes image fits)
include h

theorem textWeightOn_eq {text : List Char} (hfit : fits (textWeight text).total = true) :
    textWeightOn hold text = some ((textWeight text).mapCounts image) := by
  have hle : ∀ {m}, m ≤ (textWeight text).total → fits m = true := fun hm => h.mono hm hfit
  simp only [textWeight, TokenWeight.total] at hle
  have hlogical := hle (m := countPairs '&' text + countPairs '|' text) (by omega)
  have hclauses :=
    hle (m := countPairs '&' text + countPairs '|' text + text.count '?') (by omega)
  have hconds :=
    hle (m := countPairs '&' text + countPairs '|' text + text.count '?' + 1) (by omega)
  have hops :=
    hle (m := countPairs '&' text + countPairs '|' text + text.countP isOperatorChar) (by omega)
  have hoperands := hle (m := countWordsFrom false text) (by omega)
  simp only [textWeightOn, h.add, h.eq_some hlogical, h.eq_some hclauses, h.eq_some hconds,
    h.eq_some hops, h.eq_some hoperands, Option.bind_eq_bind, Option.bind_some]
  rfl

theorem eq_of_textWeightOn {text : List Char} {w : TokenWeight}
    (hw : textWeightOn hold text = some w) : w = (textWeight text).mapCounts image := by
  simp only [textWeightOn, Option.bind_eq_bind, Option.bind_eq_some_iff] at hw
  obtain ⟨logical, hlogical, clauses, hclauses, conds, hconds, ops, hops, operands, hoperands, hw⟩ :=
    hw
  obtain rfl := h.eq_image hlogical
  rw [h.add] at hclauses hops
  obtain rfl := h.eq_image hclauses
  rw [h.add] at hconds
  obtain rfl := h.eq_image hconds
  obtain rfl := h.eq_image hops
  obtain rfl := h.eq_image hoperands
  exact (Option.some.inj hw).symm

/-- **One construct**: nothing on the way to its score is greater than the score. -/
theorem Occurrence.dcOn_eq (o : Occurrence) :
    o.dcOn hold = if fits o.dc = true then some (image o.dc) else none := by
  have hone : 1 ≤ (textWeight (conditionText o.text o.kind)).total := by
    simp only [textWeight, TokenWeight.total]
    omega
  unfold dcOn
  cases hw : textWeightOn hold (conditionText o.text o.kind) with
  | none =>
      rw [if_neg]
      · rfl
      · intro hfit
        have htotal := h.mono (total_le_contribution o.kind o.depth _) hfit
        rw [textWeightOn_eq h htotal] at hw
        cases hw
  | some w =>
      obtain rfl := eq_of_textWeightOn h hw
      exact contributionOn_eq h o.kind o.depth hone

end

/-! ### The scan -/

namespace Scanner

/-- The image of a state. -/
def mapScores (image : Nat → Nat) (s : Scanner) : Scanner :=
  { s with
    openMethod := s.openMethod.map (Scope.mapScores image)
    openClass := s.openClass.map (Scope.mapScores image)
    result := s.result.mapScores image }

/-- Scores a construct and goes below it. -/
def enterOn (s : Scanner) (o : Occurrence) : Option Scanner := do
  let dc ← o.dcOn hold
  let scored ← s.result.scoreOn hold o.line dc
  let openMethod ← s.openMethod.mapM fun m => m.chargeOn hold dc
  let openClass ← s.openClass.mapM fun c => c.chargeOn hold dc
  let nesting := o.push s.nesting
  let recorded := scored.record o.kind o.depth
  let result := (parent? nesting o.depth).elim recorded fun parent =>
    recorded.noteNested parent (o.depth - 1) o.kind
  return { nesting, openMethod, openClass, result }

/-- Does an act. -/
def performOn (s : Scanner) : Act → Option Scanner
  | .body found closes => do
    let s ← found.elim (some s) (s.enterOn hold)
    return if closes then s.closeBlock else s
  | a => some (s.perform a)

/-- Reads a line. -/
def readLineOn (excluded : List String) (s : Scanner) (n : Nat) (raw : List Char) :
    Option Scanner := (s.act? excluded n raw).elim (some s) (s.performOn hold)

/-- Reads lines, the first of which has the given number. -/
def readLinesOn (excluded : List String) : Nat → List (List Char) → Scanner → Option Scanner
  | _, [], s => some s
  | n, l :: ls, s => do
    let s ← s.readLineOn hold excluded n l
    readLinesOn excluded (n + 1) ls s

section
variable (image : Nat → Nat) (s : Scanner)

theorem mapScores_closeMethod :
    s.closeMethod.mapScores image = (s.mapScores image).closeMethod := by
  obtain ⟨nesting, openMethod, openClass, result⟩ := s
  cases openMethod with
  | none => rfl
  | some m => simp [mapScores, closeMethod, Breakdown.mapScores_closeMethod]

theorem mapScores_closeClass : s.closeClass.mapScores image = (s.mapScores image).closeClass := by
  obtain ⟨nesting, openMethod, openClass, result⟩ := s
  cases openClass with
  | none => rfl
  | some c => simp [mapScores, closeClass, Breakdown.mapScores_closeClass]

theorem mapScores_closeBlock : s.closeBlock.mapScores image = (s.mapScores image).closeBlock := by
  rw [closeBlock, mapScores_closeClass, mapScores_closeMethod]
  rfl

theorem mapScores_finish : s.finish.mapScores image = (s.mapScores image).finish := by
  have hresult : ∀ s : Scanner, s.result.mapScores image = (s.mapScores image).result :=
    fun s => rfl
  rw [finish, hresult, mapScores_closeClass, mapScores_closeMethod]
  rfl

/-- What a line does is not a matter of scores. -/
theorem act?_mapScores (excluded : List String) (n : Nat) (raw : List Char) :
    (s.mapScores image).act? excluded n raw = s.act? excluded n raw := by
  have hopens : ∀ line,
      (s.mapScores image).opensMethod? excluded line = s.opensMethod? excluded line := by
    intro line
    obtain ⟨nesting, openMethod, openClass, result⟩ := s
    cases openMethod <;> rfl
  simp only [act?, hopens]
  rfl

end

section
variable {hold} {image : Nat → Nat} {fits : Nat → Bool} (h : hold.Computes image fits)
include h

theorem mapScores_initial : initial.mapScores image = initial := by
  rw [initial, mapScores, Breakdown.mapScores_baseline h]
  rfl

theorem mapM_chargeOn {scope : Option Scope} {b : Breakdown} {dc : Nat}
    (hscope : ∀ x ∈ scope, x.score.Within b) (hdc : fits (b.dc + dc) = true)
    (hcc : fits (b.cc + 1) = true) :
    ((scope.map (Scope.mapScores image)).mapM fun x => x.chargeOn hold (image dc)) =
      some ((scope.map (·.charge dc)).map (Scope.mapScores image)) := by
  cases scope with
  | none => rfl
  | some x =>
      obtain ⟨-, hx, hx'⟩ := hscope x rfl
      have hcharge := Scope.chargeOn_eq h (h.mono (Nat.add_le_add_right hx' dc) hdc)
        (h.mono (Nat.add_le_add_right hx 1) hcc)
      simp [hcharge]

/-- **A construct.** -/
theorem enterOn_eq {n : Nat} {s : Scanner} (hs : Sound n s) (o : Occurrence) :
    (s.mapScores image).enterOn hold o =
      if (s.enter o).result.totalsFit fits = true then some ((s.enter o).mapScores image)
      else none := by
  have hresult : (s.enter o).result.mapScores image =
      (parent? (o.push s.nesting) o.depth).elim
        (((s.result.score o.line o.dc).mapScores image).record o.kind o.depth) fun parent =>
          (((s.result.score o.line o.dc).mapScores image).record o.kind o.depth).noteNested parent
            (o.depth - 1) o.kind := by
    rw [result_enter]
    cases parent? (o.push s.nesting) o.depth <;> rfl
  have htotals : (s.enter o).result.totalsFit fits =
      (s.result.score o.line o.dc).totalsFit fits :=
    part_enter (·.totalsFit fits) (fun _ _ _ _ => rfl) s o
  have hscore : ((s.mapScores image).result.scoreOn hold o.line (image o.dc)) = _ :=
    Breakdown.scoreOn_eq h (hs.consistent.lineScore_le o.line) o.dc
  rw [htotals]
  unfold enterOn
  rw [Occurrence.dcOn_eq h]
  by_cases hfit : (s.result.score o.line o.dc).totalsFit fits = true
  · have hdc : fits (s.result.dc + o.dc) = true := (Breakdown.totalsFit_iff.mp hfit).1
    have hcc : fits (s.result.cc + 1) = true := (Breakdown.totalsFit_iff.mp hfit).2
    rw [if_pos hfit] at hscore ⊢
    rw [if_pos (h.mono (Nat.le_add_left _ _) hdc)]
    have hmethod : (s.mapScores image).openMethod.mapM _ = _ := mapM_chargeOn h hs.openMethod hdc hcc
    have hclass : (s.mapScores image).openClass.mapM _ = _ := mapM_chargeOn h hs.openClass hdc hcc
    simp only [Option.bind_eq_bind, Option.bind_some, hscore, hmethod, hclass]
    exact congrArg some (congrArg _ hresult.symm)
  · rw [if_neg hfit] at hscore ⊢
    split
    · simp only [Option.bind_eq_bind, Option.bind_some, hscore, Option.bind_none]
    · rfl

/-- **An act.** -/
theorem performOn_eq {n : Nat} {s : Scanner} (hs : Sound n s)
    (hfit : s.result.totalsFit fits = true) (a : Act) :
    (s.mapScores image).performOn hold a =
      if (s.perform a).result.totalsFit fits = true then some ((s.perform a).mapScores image)
      else none := by
  have htotals := part_perform (·.totalsFit fits) (fun _ _ => rfl) (fun _ _ => rfl)
    (fun _ _ _ _ => rfl) s a
  cases a with
  | openClass name =>
      have hopen : (s.mapScores image).perform (.openClass name) =
          (s.perform (.openClass name)).mapScores image := by
        show { (s.mapScores image).closeClass with openClass := some (Scope.start name) } = _
        rw [← mapScores_closeClass]
        simp only [perform, mapScores, Option.map_some, Scope.mapScores_start h]
      rw [if_pos (htotals.trans hfit), ← hopen]
      rfl
  | openMethod name =>
      have hopen : (s.mapScores image).perform (.openMethod name) =
          (s.perform (.openMethod name)).mapScores image := by
        simp only [perform, mapScores, Option.map_some, Scope.mapScores_start h]
      rw [if_pos (htotals.trans hfit), ← hopen]
      rfl
  | body found closes =>
      have hclose : ∀ s : Scanner, (if closes then s.closeBlock else s).mapScores image =
          if closes then (s.mapScores image).closeBlock else s.mapScores image := by
        intro s
        rw [← mapScores_closeBlock]
        cases closes <;> rfl
      cases found with
      | none =>
          rw [if_pos (htotals.trans hfit)]
          exact congrArg some (hclose s).symm
      | some o =>
          have henter := enterOn_eq h hs o
          have hkeep : (s.perform (.body (some o) closes)).result.totalsFit fits =
              (s.enter o).result.totalsFit fits :=
            htotals.trans (part_enter (·.totalsFit fits) (fun _ _ _ _ => rfl) s o).symm
          rw [hkeep]
          show ((s.mapScores image).enterOn hold o).bind _ = _
          rw [henter]
          split
          · exact congrArg some (hclose (s.enter o)).symm
          · rfl

/-- **A line.** -/
theorem readLineOn_eq {n : Nat} {s : Scanner} (hs : Sound n s)
    (hfit : s.result.totalsFit fits = true) (excluded : List String) (raw : List Char) :
    (s.mapScores image).readLineOn hold excluded n raw =
      if (s.readLine excluded n raw).result.totalsFit fits = true
      then some ((s.readLine excluded n raw).mapScores image) else none := by
  rw [readLine_eq, readLineOn, act?_mapScores]
  cases ha : s.act? excluded n raw with
  | none => exact (if_pos hfit).symm
  | some a => exact performOn_eq h hs hfit a

/-- **All lines**: the totals only grow. -/
theorem readLinesOn_eq {n : Nat} {s : Scanner} (hs : Sound n s)
    (hfit : s.result.totalsFit fits = true) (excluded : List String) (ls : List (List Char)) :
    readLinesOn hold excluded n ls (s.mapScores image) =
      if (readLines excluded n ls s).result.totalsFit fits = true
      then some ((readLines excluded n ls s).mapScores image) else none := by
  induction ls generalizing n s with
  | nil => exact (if_pos hfit).symm
  | cons l ls ih =>
      rw [readLinesOn, readLines, readLineOn_eq h hs hfit]
      by_cases hline : (s.readLine excluded n l).result.totalsFit fits = true
      · rw [if_pos hline]
        exact ih (hs.readLine excluded l) hline
      · rw [if_neg hline, if_neg]
        · rfl
        · intro hall
          obtain ⟨hdc, hcc⟩ := Breakdown.totalsFit_iff.mp hall
          exact hline (Breakdown.totalsFit_iff.mpr
            ⟨h.mono (dc_le_readLines ..) hdc, h.mono (cc_le_readLines ..) hcc⟩)

end

end Scanner

/-- The breakdown of a text in a language with braces. -/
def breakdownOn (language : Language) (extra : List String) (source : String) :
    Option Breakdown := do
  let s ← Scanner.readLinesOn hold (language.excludedIdentifiers ++ extra) 1
    (splitLines source.toList) .initial
  return s.finish

section
variable (language : Language) (extra : List String) (source : String)

/-- No number that occurs in a scan is greater than both totals at its end. -/
theorem breakdownOn_eq {hold : Machine} {image : Nat → Nat} {fits : Nat → Bool}
    (h : hold.Computes image fits) : breakdownOn hold language extra source =
      if (breakdown language extra source).totalsFit fits = true
      then some ((breakdown language extra source).mapScores image) else none := by
  have hlines := Scanner.readLinesOn_eq h .initial (Breakdown.totalsFit_baseline h)
    (language.excludedIdentifiers ++ extra) (splitLines source.toList)
  rw [Scanner.mapScores_initial h] at hlines
  have htotals := Scanner.part_finish (·.totalsFit fits) (fun _ _ => rfl) (fun _ _ => rfl)
  unfold breakdown breakdownOn
  rw [hlines, htotals, Scanner.mapScores_finish]
  split
  · rfl
  · rfl

theorem onWords_breakdown : OnWords (breakdownOn · language extra source)
    (breakdown language extra source) :=
  onWords_of_computes (consistent_of_text language extra source).1.bounded.mapScores_residue fun h =>
    breakdownOn_eq language extra source h

theorem lineCount_le : lineCount source ≤ source.length + 1 := by
  have hcount : source.toList.count '\n' ≤ source.toList.length := List.count_le_length
  rw [String.length_toList] at hcount
  exact Nat.succ_le_succ hcount

/-- The totals fit in words of 64 bits. -/
theorem totals_lt (h : source.length + 1 ≤ 2 ^ 31) :
    (breakdown language extra source).dc < UInt64.size ∧
      (breakdown language extra source).cc < UInt64.size := by
  have hdc := dc_breakdown_le language extra source
  have hcc := cc_breakdown_le language extra source
  have hlines := lineCount_le source
  have hproduct : 3 * lineCount source * (source.length + 1) ≤ 3 * 2 ^ 31 * 2 ^ 31 :=
    Nat.mul_le_mul (Nat.mul_le_mul_left 3 (Nat.le_trans hlines h)) h
  have hsize : UInt64.size = 2 ^ 64 := rfl
  omega

end

/-- **Scores on words.**  The totals are bounded by the lines and the characters of the text, all
that is computed on the way and all scores of lines and scopes are bounded by the totals, and so a
text of less than `2 ^ 31` characters is scored on words of 64 bits as it is on numbers of any
size. -/
theorem breakdown_on_words (language : Language) (extra : List String) (source : String) :
    let b := breakdown language extra source
    b.dc ≤ 3 * lineCount source * (source.length + 1) ∧ b.cc ≤ lineCount source + 1 ∧
    breakdownOn (.upTo (max b.dc b.cc)) language extra source = some b ∧
    (∀ line, b.lineScore line ≤ b.dc) ∧ AllWithin b.methods b ∧ AllWithin b.classes b ∧
    (source.length + 1 ≤ 2 ^ 31 →
      breakdownOn .checked language extra source = some b ∧
      breakdownOn .wrapping language extra source = some b) := by
  intro b
  obtain ⟨hconsistent, -⟩ := consistent_of_text language extra source
  have hwords := onWords_breakdown language extra source
  refine ⟨dc_breakdown_le language extra source, cc_breakdown_le language extra source, ?_,
    hconsistent.lineScore_le, hconsistent.methods, hconsistent.classes, ?_⟩
  · have hone : 1 ≤ max b.dc b.cc := Nat.le_trans hconsistent.one_le_cc (Nat.le_max_right _ _)
    exact (hwords.upTo _ hone).trans (if_pos ⟨Nat.le_max_left _ _, Nat.le_max_right _ _⟩)
  · exact fun hlength => hwords.of_totals_lt (totals_lt language extra source hlength)

/-- The score of this line is four. -/
example : breakdownOn (.upTo 3) .java [] "if (x) \x7b" = none := by decide +kernel

end DecisionScore.Brace
