import DecisionScore.Proofs.Brace.Lines
import DecisionScore.Proofs.Text

/-! # How much a text can score

A governing text weighs at most its length and one more, since no character of it is counted twice
(`total_textWeight_le`): a combinator counts twice but has two characters.  No construct is deeper
than there are lines before it, so that on each of `L` lines it scores at most `3 * L` times the
length of the line and one more (`sum_dc_occurrences_le`).  Over all lines, which together are as
long as the text (`sum_length_pieces`), this bounds the totals of a breakdown (`dc_breakdown_le`,
`cc_breakdown_le`). -/

namespace DecisionScore.Brace

open DecisionScore.Text

/-! ### The weight of a text -/

/-- Pairs do not overlap. -/
theorem two_mul_countPairs_le (x : Char) (text : List Char) :
    2 * countPairs x text ≤ text.count x := by
  fun_induction countPairs x text with
  | case1 => exact Nat.le_refl 0
  | case2 => exact Nat.zero_le _
  | case3 a b cs h ih =>
      obtain ⟨rfl, rfl⟩ : a = x ∧ b = x := by simpa using h
      rw [List.count_cons_self, List.count_cons_self]
      omega
  | case4 a b cs h ih => exact Nat.le_trans ih List.count_le_count_cons

/-- A word has a character of its own. -/
theorem countWordsFrom_le (inWord : Bool) (text : List Char) :
    countWordsFrom inWord text ≤ text.countP isWord := by
  induction text generalizing inWord with
  | nil => exact Nat.le_refl 0
  | cons c cs ih =>
      rw [countWordsFrom, List.countP_cons]
      split
      · have := ih true
        split <;> omega
      · exact ih false

/-- The number of characters of a list that a token weight counts, by their kinds. -/
def counted (text : List Char) : Nat :=
  text.count '&' + text.count '|' + text.count '?' + text.countP isOperatorChar +
    text.countP isWord

/-- No character is of two kinds. -/
theorem counted_cons_le (c : Char) (cs : List Char) : counted (c :: cs) ≤ counted cs + 1 := by
  by_cases hsign : c ∈ ['&', '|', '?', '=', '!', '<', '>', '+', '-', '*', '/', '%']
  · -- a sign is no word character, and of one of the other kinds
    simp only [List.mem_cons, List.not_mem_nil, or_false] at hsign
    rcases hsign with rfl | rfl | rfl | rfl | rfl | rfl | rfl | rfl | rfl | rfl | rfl | rfl <;>
      simp [counted, isOperatorChar, isWord] <;> omega
  · simp only [List.mem_cons, List.not_mem_nil, or_false, not_or] at hsign
    have hop : isOperatorChar c = false := by simp [isOperatorChar, hsign]
    have hother := And.intro hsign.1 (And.intro hsign.2.1 hsign.2.2.1)
    by_cases hword : isWord c = true <;> simp [counted, hop, hword, hother]; omega

theorem counted_le (text : List Char) : counted text ≤ text.length := by
  induction text with
  | nil => exact Nat.le_refl 0
  | cons c cs ih => exact Nat.le_trans (counted_cons_le c cs) (Nat.succ_le_succ ih)

/-- **One condition** weighs at most one more than it is long. -/
theorem total_textWeight_le (text : List Char) : (textWeight text).total ≤ text.length + 1 := by
  have hand := two_mul_countPairs_le '&' text
  have hor := two_mul_countPairs_le '|' text
  have hwords := countWordsFrom_le false text
  have hall := counted_le text
  simp only [textWeight, TokenWeight.total]
  unfold counted at hall
  omega

/-! ### One construct -/

theorem length_closeGroup?_le {depth : Nat} {cs group : List Char}
    (h : closeGroup? depth cs = some group) : group.length ≤ cs.length := by
  have hcons : ∀ {d : Nat} {c : Char} {cs group : List Char},
      (∀ {group}, closeGroup? d cs = some group → group.length ≤ cs.length) →
      (closeGroup? d cs).map (c :: ·) = some group → group.length ≤ (c :: cs).length := by
    intro d c cs group ih h
    obtain ⟨rest, hrest, rfl⟩ := Option.map_eq_some_iff.mp h
    exact Nat.succ_le_succ (ih hrest)
  fun_induction closeGroup? depth cs generalizing group with
  | case1 => cases h
  | case2 depth cs ih => exact hcons ih h
  | case3 cs hopen =>
      obtain rfl := Option.some.inj h
      exact Nat.zero_le _
  | case4 cs d hopen ih => exact hcons ih h
  | case5 depth c cs hopen hclose ih => exact hcons ih h

theorem length_firstGroup_le (line : List Char) : (firstGroup line).length ≤ line.length := by
  unfold firstGroup
  have hdrop := (line.dropWhile_sublist (· != '(')).length_le
  split
  · exact Nat.zero_le _
  · next rest h =>
      rw [h, List.length_cons] at hdrop
      cases hg : closeGroup? 0 rest with
      | none => exact Nat.zero_le _
      | some group =>
          have := length_closeGroup?_le hg
          show group.length ≤ line.length
          omega

theorem length_conditionText_le (line : List Char) (kind : Construct) :
    (conditionText line kind).length ≤ line.length := by
  unfold conditionText
  split
  · exact (line.takeWhile_sublist _).length_le
  · exact length_firstGroup_le line

/-- **One construct**: at most three times its depth for every character of its line and one
more. -/
theorem Occurrence.dc_le (o : Occurrence) :
    o.dc ≤ 3 * max o.depth 1 * (o.text.length + 1) := by
  have hweight : (textWeight (conditionText o.text o.kind)).total ≤ o.text.length + 1 :=
    Nat.le_trans (total_textWeight_le _) (Nat.succ_le_succ (length_conditionText_le _ _))
  have hfactor : effectiveDepth o.depth * o.kind.baseWeight ≤ 3 * max o.depth 1 := by
    rw [Nat.mul_comm 3]
    exact Nat.mul_le_mul_left _ o.kind.baseWeight_le
  exact Nat.mul_le_mul hfactor hweight

/-! ### The lines of a text -/

namespace Scanner

variable (excluded : List String)

/-- A line puts at most one construct on the stack. -/
theorem length_nesting_readLine_le (s : Scanner) (n : Nat) (raw : List Char) :
    (s.readLine excluded n raw).nesting.length ≤ s.nesting.length + 1 := by
  rw [readLine_eq]
  cases s.act? excluded n raw with
  | none => exact Nat.le_succ _
  | some a =>
      rw [Option.elim_some, nesting_perform]
      cases a with
      | openClass name => exact Nat.le_succ _
      | openMethod name => exact Nat.le_succ _
      | body found closes =>
          refine Nat.le_trans (List.drop_sublist _ _).length_le ?_
          cases found with
          | none => exact Nat.le_succ _
          | some o =>
              show (o.push s.nesting).length ≤ s.nesting.length + 1
              unfold Occurrence.push
              split
              · exact Nat.le_succ _
              · exact Nat.le_refl _

/-- A line holds at most one construct. -/
theorem length_occurrences_le (n : Nat) (ls : List (List Char)) (s : Scanner) :
    (occurrences excluded n ls s).length ≤ ls.length := by
  induction ls generalizing n s with
  | nil => exact Nat.le_refl 0
  | cons l ls ih =>
      rw [occurrences_cons, List.length_append, List.length_cons, Nat.add_comm]
      exact Nat.add_le_add (ih _ _) (Option.length_toList_le)

/-- **The constructs of many lines**, with room for all of them on the stack. -/
theorem sum_dc_occurrences_le {n : Nat} {ls : List (List Char)} {s : Scanner} {bound : Nat}
    (h : s.nesting.length + ls.length ≤ bound) :
    ((occurrences excluded n ls s).map Occurrence.dc).sum ≤
      3 * bound * (ls.map fun l => l.length + 1).sum := by
  induction ls generalizing n s with
  | nil => exact Nat.zero_le _
  | cons l ls ih =>
      rw [List.length_cons] at h
      have hnesting := length_nesting_readLine_le excluded s n l
      have hrest := @ih (n + 1) (s.readLine excluded n l) (by omega)
      have hfirst : (((s.act? excluded n l).bind Act.occurrence?).toList.map Occurrence.dc).sum ≤
          3 * bound * (l.length + 1) := by
        cases ho : (s.act? excluded n l).bind Act.occurrence? with
        | none => exact Nat.zero_le _
        | some o =>
            obtain ⟨a, ha, hoa⟩ := Option.bind_eq_some_iff.mp ho
            obtain ⟨-, hdepth, htext⟩ := of_mem_act? ha o hoa
            have hlength : o.text.length ≤ l.length := htext ▸ length_trim_le l
            have hmax : max o.depth 1 ≤ bound := by omega
            show o.dc + 0 ≤ _
            exact Nat.le_trans o.dc_le
              (Nat.mul_le_mul (Nat.mul_le_mul_left 3 hmax) (Nat.succ_le_succ hlength))
      rw [occurrences_cons, List.map_append, List.sum_append, List.map_cons, List.sum_cons,
        Nat.mul_add]
      exact Nat.add_le_add hfirst hrest

/-- The totals only grow. -/
theorem dc_le_readLines (n : Nat) (ls : List (List Char)) (s : Scanner) :
    s.result.dc ≤ (readLines excluded n ls s).result.dc := by
  rw [total_readLines excluded (·.dc) (fun _ _ => rfl) (fun _ _ => rfl) (fun _ _ _ _ => rfl)
    (fun _ _ => rfl)]
  exact Nat.le_add_right _ _

theorem cc_le_readLines (n : Nat) (ls : List (List Char)) (s : Scanner) :
    s.result.cc ≤ (readLines excluded n ls s).result.cc := by
  rw [total_readLines excluded (·.cc) (fun _ _ => rfl) (fun _ _ => rfl) (fun _ _ _ _ => rfl)
    (fun _ _ => rfl)]
  exact Nat.le_add_right _ _

end Scanner

/-! ### A whole text -/

/-- The number of lines of a text. -/
def lineCount (source : String) : Nat := source.toList.count '\n' + 1

theorem length_splitLines (source : String) :
    (splitLines source.toList).length = lineCount source := length_pieces '\n' _

section
variable (language : Language) (extra : List String) (source : String)

/-- The constructs of a text, in order. -/
def constructs : List Occurrence :=
  Scanner.occurrences (language.excludedIdentifiers ++ extra) 1 (splitLines source.toList) .initial

theorem dc_breakdown : (breakdown language extra source).dc =
    ((constructs language extra source).map Occurrence.dc).sum :=
  (Scanner.total_finish _ (·.dc) (fun _ _ => rfl) (fun _ _ => rfl) (fun _ _ _ _ => rfl)
    (fun _ _ => rfl) 1 _ _).trans (Nat.zero_add _)

theorem cc_breakdown :
    (breakdown language extra source).cc = 1 + (constructs language extra source).length := by
  have hcc : (breakdown language extra source).cc =
      1 + ((constructs language extra source).map fun _ => 1).sum :=
    Scanner.total_finish _ (·.cc) (fun _ _ => rfl) (fun _ _ => rfl) (fun _ _ _ _ => rfl)
      (fun _ _ => rfl) 1 _ _
  rw [hcc, List.map_const', List.sum_replicate_nat, Nat.mul_one]

theorem dc_breakdown_le :
    (breakdown language extra source).dc ≤ 3 * lineCount source * (source.length + 1) := by
  have hroom : Scanner.initial.nesting.length + (splitLines source.toList).length ≤
      lineCount source := by
    rw [length_splitLines]
    exact Nat.le_of_eq (Nat.zero_add _)
  have hsum := Scanner.sum_dc_occurrences_le (language.excludedIdentifiers ++ extra)
    (n := 1) hroom
  rw [dc_breakdown, ← String.length_toList, ← sum_length_pieces '\n']
  exact hsum

theorem cc_breakdown_le : (breakdown language extra source).cc ≤ lineCount source + 1 := by
  have hlength := Scanner.length_occurrences_le (language.excludedIdentifiers ++ extra) 1
    (splitLines source.toList) .initial
  rw [cc_breakdown, Nat.add_comm, ← length_splitLines]
  exact Nat.succ_le_succ hlength

end

end DecisionScore.Brace
