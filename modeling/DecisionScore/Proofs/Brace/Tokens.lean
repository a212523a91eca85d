import Mathlib.Data.List.Nodup
import DecisionScore.Proofs.Brace.Budget

/-! # What a token weight counts

A separator is a character that counts as nothing.  No pair of signs and no word reaches across it,
so that the weights on both sides of it add up, but for the clause that every text has
(`textWeight_append`).  The words are the maximal runs of word characters: each starts at a place
where `countWordsFrom` counts one, and the other way round (`mem_wordRuns`, `length_wordRuns`). -/

namespace DecisionScore.Brace

open DecisionScore.Text

/-! ### Separators -/

/-- A character that is in no word and is no sign. -/
def IsSeparator (c : Char) : Prop :=
  isWord c = false ∧ c ∉ ['&', '|', '?', '=', '!', '<', '>', '+', '-', '*', '/', '%']

instance (c : Char) : Decidable (IsSeparator c) := inferInstanceAs (Decidable (_ ∧ _))

theorem countPairs_cons_of_ne {x c : Char} (h : c ≠ x) (cs : List Char) :
    countPairs x (c :: cs) = countPairs x cs := by
  cases cs with
  | nil => rfl
  | cons d ds => simp [countPairs, h]

/-- No pair reaches across another character. -/
theorem countPairs_append {x c : Char} (h : c ≠ x) (a b : List Char) :
    countPairs x (a ++ c :: b) = countPairs x a + countPairs x b := by
  fun_induction countPairs x a with
  | case1 => rw [List.nil_append, countPairs_cons_of_ne h, Nat.zero_add]
  | case2 d =>
      have hpair : ¬(decide (d = x) && decide (c = x)) = true := by simp [h]
      rw [List.singleton_append, countPairs, if_neg hpair, countPairs_cons_of_ne h, Nat.zero_add]
  | case3 d e a hpair ih =>
      rw [List.cons_append, List.cons_append, countPairs, if_pos hpair, ih, Nat.add_assoc]
  | case4 d e a hpair ih =>
      rw [List.cons_append, List.cons_append, countPairs, if_neg hpair, ← List.cons_append, ih]

/-- No word reaches across a character that is in no word. -/
theorem countWordsFrom_append {c : Char} (h : isWord c = false) (inWord : Bool)
    (a b : List Char) :
    countWordsFrom inWord (a ++ c :: b) = countWordsFrom inWord a + countWordsFrom false b := by
  induction a generalizing inWord with
  | nil => simp [countWordsFrom, h]
  | cons d a ih =>
      rw [List.cons_append, countWordsFrom, countWordsFrom, ih, ih]
      split
      · rw [Nat.add_assoc]
      · rfl

/-- The weights on both sides of a separator add up, but for the clause that every text has. -/
theorem textWeight_append {c : Char} (h : IsSeparator c) (a b : List Char) :
    (textWeight (a ++ c :: b)).ops = (textWeight a).ops + (textWeight b).ops ∧
    (textWeight (a ++ c :: b)).operands = (textWeight a).operands + (textWeight b).operands ∧
    (textWeight (a ++ c :: b)).conds + 1 = (textWeight a).conds + (textWeight b).conds := by
  obtain ⟨hword, hsign⟩ := h
  simp only [List.mem_cons, List.not_mem_nil, or_false, not_or] at hsign
  obtain ⟨hand, hor, hquestion, hsymbols⟩ := hsign
  have hsymbol : isOperatorChar c = false := by simp [isOperatorChar, hsymbols]
  have hquestions : (a ++ c :: b).count '?' = a.count '?' + b.count '?' := by
    rw [List.count_append, List.count_cons_of_ne hquestion]
  have hcount : (a ++ c :: b).countP isOperatorChar =
      a.countP isOperatorChar + b.countP isOperatorChar := by
    rw [List.countP_append, List.countP_cons_of_neg (by simp [hsymbol])]
  refine ⟨?_, countWordsFrom_append hword false a b, ?_⟩
  · simp only [textWeight, countPairs_append hand, countPairs_append hor, hcount]
    omega
  · simp only [textWeight, countPairs_append hand, countPairs_append hor, hquestions]
    omega

/-! ### Words -/

/-- A part of a text, with what stands before it and behind it. -/
structure Part where
  before : List Char
  inside : List Char
  behind : List Char

/-- A part is a maximal run of word characters. -/
structure Part.IsWord (p : Part) (text : List Char) : Prop where
  whole : text = p.before ++ (p.inside ++ p.behind)
  nonempty : p.inside ≠ []
  words : ∀ c ∈ p.inside, isWord c = true
  left : p.before.getLast?.any isWord = false
  right : p.behind.head?.any isWord = false

/-- The word that stands at the start of `cs`. -/
def wordAt (before cs : List Char) : Part := ⟨before, cs.takeWhile isWord, cs.dropWhile isWord⟩

/-- The words of `before ++ cs` that start in `cs`, in order. -/
def wordRuns (before : List Char) : List Char → List Part
  | [] => []
  | c :: cs =>
    let rest := wordRuns (before ++ [c]) cs
    if isWord c && !before.getLast?.any isWord then wordAt before (c :: cs) :: rest else rest

/-- A word starts where a word character stands behind none. -/
theorem isWord_here {before cs : List Char} {c : Char} {p : Part} :
    p.IsWord (before ++ c :: cs) ∧ p.before.length = before.length ↔
      (isWord c && !before.getLast?.any isWord) = true ∧ p = wordAt before (c :: cs) := by
  rw [Bool.and_eq_true, Bool.not_eq_true']
  constructor
  · rintro ⟨h, hlength⟩
    obtain ⟨hbefore, hrest⟩ := List.append_inj h.whole hlength.symm
    obtain ⟨d, ds, hinside⟩ := List.exists_cons_of_ne_nil h.nonempty
    have hfirst : c = d := by
      rw [hinside] at hrest
      exact (List.cons.inj hrest).1
    refine ⟨⟨?_, hbefore ▸ h.left⟩, ?_⟩
    · rw [hfirst]
      exact h.words d (by rw [hinside]; exact List.mem_cons_self)
    · rw [wordAt, hrest, takeWhile_append_of_head? h.words h.right,
        dropWhile_append_of_head? h.words h.right, hbefore]
  · rintro ⟨⟨hword, hbefore⟩, rfl⟩
    refine ⟨⟨?_, ?_, fun d hd => List.mem_takeWhile_imp hd, hbefore, ?_⟩, rfl⟩
    · rw [wordAt, List.takeWhile_append_dropWhile]
    · rw [wordAt, List.takeWhile_cons_of_pos hword]
      exact List.cons_ne_nil _ _
    · exact any_head?_dropWhile isWord (c :: cs)

theorem mem_wordRuns {before cs : List Char} {p : Part} :
    p ∈ wordRuns before cs ↔ p.IsWord (before ++ cs) ∧ before.length ≤ p.before.length := by
  induction cs generalizing before with
  | nil =>
      constructor
      · intro h
        exact absurd h List.not_mem_nil
      · rintro ⟨h, hlength⟩
        have hinside := List.length_pos_of_ne_nil h.nonempty
        have hwhole := congrArg List.length h.whole
        simp only [List.length_append, List.length_nil] at hwhole
        omega
  | cons c cs ih =>
      have hhere : p ∈ wordRuns before (c :: cs) ↔
          ((isWord c && !before.getLast?.any isWord) = true ∧ p = wordAt before (c :: cs)) ∨
            p ∈ wordRuns (before ++ [c]) cs := by
        rw [wordRuns]
        split
        · next h => rw [List.mem_cons]; simp [h]
        · next h => simp [h]
      rw [hhere, ← isWord_here, ih, List.append_assoc, List.singleton_append, List.length_append,
        List.length_singleton, ← and_or_left]
      refine and_congr_right fun _ => ?_
      omega

/-- No two words start at one place. -/
theorem nodup_wordRuns (before cs : List Char) : (wordRuns before cs).Nodup := by
  induction cs generalizing before with
  | nil => exact List.nodup_nil
  | cons c cs ih =>
      rw [wordRuns]
      split
      · refine List.nodup_cons.mpr ⟨fun h => ?_, ih _⟩
        have hlength := (mem_wordRuns.mp h).2
        rw [List.length_append, List.length_singleton] at hlength
        exact absurd hlength (Nat.not_succ_le_self _)
      · exact ih _

theorem length_wordRuns (before cs : List Char) :
    (wordRuns before cs).length = countWordsFrom (before.getLast?.any isWord) cs := by
  induction cs generalizing before with
  | nil => rfl
  | cons c cs ih =>
      have hrest : (wordRuns (before ++ [c]) cs).length = countWordsFrom (isWord c) cs := by
        rw [ih, List.getLast?_concat, Option.any_some]
      rw [wordRuns, countWordsFrom]
      cases hword : isWord c <;> cases hbefore : before.getLast?.any isWord <;>
        simp [hrest, hword, Nat.add_comm]

/-- **What a token weight counts.**  Operators, operands and clauses on both sides of a separator
add up, but for one clause.  The operands are the maximal runs of word characters.  What is counted
is no more than the characters and one. -/
theorem textWeight_counts :
    (∀ (a b : List Char) (c : Char), IsSeparator c →
      (textWeight (a ++ c :: b)).ops = (textWeight a).ops + (textWeight b).ops ∧
      (textWeight (a ++ c :: b)).operands = (textWeight a).operands + (textWeight b).operands ∧
      (textWeight (a ++ c :: b)).conds + 1 = (textWeight a).conds + (textWeight b).conds) ∧
    ∀ text : List Char,
      (∃ runs : List Part, runs.Nodup ∧ (∀ p, p ∈ runs ↔ p.IsWord text) ∧
        (textWeight text).operands = runs.length) ∧
      (textWeight text).conds + (textWeight text).ops + (textWeight text).operands ≤
        text.length + 1 := by
  refine ⟨fun a b c h => textWeight_append h a b, fun text => ⟨?_, total_textWeight_le text⟩⟩
  refine ⟨wordRuns [] text, nodup_wordRuns [] text, fun p => ?_, (length_wordRuns [] text).symm⟩
  rw [mem_wordRuns, List.nil_append]
  exact and_iff_left (Nat.zero_le _)

/-- The two sides of a comma, both with odd runs of signs, and the whole. -/
theorem textWeight_counts_sample : IsSeparator ',' ∧
    textWeight "é &&& b|||x?".toList = ⟨4, 2, 3⟩ ∧
    textWeight "|| c<=1 &&&&&".toList = ⟨4, 5, 2⟩ ∧
    (textWeight ("é &&& b|||x?".toList ++ ',' :: "|| c<=1 &&&&&".toList)).ops = 7 ∧
    (textWeight ("é &&& b|||x?".toList ++ ',' :: "|| c<=1 &&&&&".toList)).operands = 5 ∧
    (textWeight ("é &&& b|||x?".toList ++ ',' :: "|| c<=1 &&&&&".toList)).conds = 7 := by
  have hcomma : IsSeparator ',' := by decide
  have hleft : textWeight "é &&& b|||x?".toList = ⟨4, 2, 3⟩ := by decide +kernel
  have hright : textWeight "|| c<=1 &&&&&".toList = ⟨4, 5, 2⟩ := by decide +kernel
  obtain ⟨hops, hoperands, hconds⟩ :=
    textWeight_counts.1 "é &&& b|||x?".toList "|| c<=1 &&&&&".toList ',' hcomma
  rw [hleft, hright] at hops hoperands hconds
  exact ⟨hcomma, hleft, hright, hops, hoperands, Nat.succ.inj hconds⟩

end DecisionScore.Brace
