import Mathlib.Algebra.GroupWithZero.Nat
import Mathlib.Data.List.TakeWhile
import DecisionScore.Text.Blank
import DecisionScore.Text.Word

/-! # Pieces of a text

A text between separators falls into pieces, always one more than it has separators
(`length_pieces`), and no character is lost (`sum_length_pieces`).  Trimming adds none, and does not
see white space at either end (`trim_append`).  The words of a text are what stands between white
space: a text that starts with none of it is its first word, a gap, and a text with the other words
(`exists_words_eq_cons`). -/

namespace DecisionScore.Text

theorem length_trimEnd_le (cs : List Char) : (trimEnd cs).length ≤ cs.length := by
  fun_induction trimEnd cs with
  | case1 => exact Nat.le_refl 0
  | case2 c cs h hblank ih => exact Nat.zero_le _
  | case3 c cs h hblank ih => exact Nat.le_add_left 1 cs.length
  | case4 c cs d ds h ih =>
      rw [h] at ih
      exact Nat.succ_le_succ ih

theorem length_trim_le (cs : List Char) : (trim cs).length ≤ cs.length :=
  Nat.le_trans (length_trimEnd_le _) (cs.dropWhile_sublist isBlank).length_le

theorem trimEnd_eq_nil {cs : List Char} (h : ∀ c ∈ cs, isBlank c = true) : trimEnd cs = [] := by
  induction cs with
  | nil => rfl
  | cons c cs ih =>
      rw [trimEnd, ih fun d hd => h d (List.mem_cons_of_mem c hd)]
      simp [h c List.mem_cons_self]

theorem trimEnd_append (cs : List Char) {blanks : List Char}
    (h : ∀ c ∈ blanks, isBlank c = true) : trimEnd (cs ++ blanks) = trimEnd cs := by
  induction cs with
  | nil => exact trimEnd_eq_nil h
  | cons c cs ih => rw [List.cons_append, trimEnd, trimEnd, ih]

/-- White space at either end does not count. -/
theorem trim_append (cs : List Char) {before after : List Char}
    (hbefore : ∀ c ∈ before, isBlank c = true) (hafter : ∀ c ∈ after, isBlank c = true) :
    trim (before ++ cs ++ after) = trim cs := by
  unfold trim
  rw [List.append_assoc, List.dropWhile_append_of_pos hbefore, List.dropWhile_append]
  split
  · -- nothing but white space
    next hnil =>
      rw [List.isEmpty_iff.mp hnil, ← List.append_nil after, List.dropWhile_append_of_pos hafter]
      rfl
  · exact trimEnd_append _ hafter

section
variable {α : Type} [DecidableEq α]

theorem pieces_ne_nil (separator : α) (cs : List α) : pieces separator cs ≠ [] := by
  cases cs with
  | nil => simp [pieces]
  | cons c cs =>
      rw [pieces]
      split
      · simp
      · split <;> simp

theorem pieces_append (separator : α) (cs ds : List α) :
    pieces separator (cs ++ separator :: ds) = pieces separator cs ++ pieces separator ds := by
  induction cs with
  | nil => simp [pieces]
  | cons c cs ih =>
      rw [List.cons_append, pieces, pieces, ih]
      split
      · rfl
      · cases h : pieces separator cs with
        | nil => exact absurd h (pieces_ne_nil separator cs)
        | cons l ls => rfl

theorem exists_pieces_cons {separator c : α} (h : c ≠ separator) (cs : List α) :
    ∃ l ls, pieces separator cs = l :: ls ∧ pieces separator (c :: cs) = (c :: l) :: ls := by
  obtain ⟨l, ls, hpieces⟩ := List.exists_cons_of_ne_nil (pieces_ne_nil separator cs)
  refine ⟨l, ls, hpieces, ?_⟩
  rw [pieces, if_neg h, hpieces]

theorem pieces_of_not_mem {separator : α} {cs : List α} (h : separator ∉ cs) :
    pieces separator cs = [cs] := by
  induction cs with
  | nil => rfl
  | cons c cs ih =>
      obtain ⟨hc, hcs⟩ := List.ne_and_not_mem_of_not_mem_cons h
      rw [pieces, if_neg (Ne.symm hc), ih hcs]

theorem not_mem_of_mem_pieces {separator : α} {cs l : List α} (h : l ∈ pieces separator cs) :
    separator ∉ l := by
  induction cs generalizing l with
  | nil =>
      obtain rfl := List.mem_singleton.mp h
      exact List.not_mem_nil
  | cons c cs ih =>
      by_cases hc : c = separator
      · rw [pieces, if_pos hc] at h
        rcases List.mem_cons.mp h with rfl | h
        · exact List.not_mem_nil
        · exact ih h
      · obtain ⟨m, ms, hpieces, hcons⟩ := exists_pieces_cons hc cs
        rw [hpieces] at ih
        rw [hcons] at h
        rcases List.mem_cons.mp h with rfl | h
        · exact List.not_mem_cons_of_ne_of_not_mem (Ne.symm hc) (ih List.mem_cons_self)
        · exact ih (List.mem_cons_of_mem m h)

/-- Pieces that are each ended by a separator. -/
theorem pieces_ended {separator : α} {ls : List (List α)} (h : ∀ l ∈ ls, separator ∉ l) :
    pieces separator (ls.flatMap (· ++ [separator])) = ls ++ [[]] := by
  induction ls with
  | nil => rfl
  | cons l ls ih =>
      obtain ⟨hl, hls⟩ := List.forall_mem_cons.mp h
      rw [List.flatMap_cons, List.append_assoc, List.singleton_append, pieces_append,
        pieces_of_not_mem hl, ih hls]
      rfl

end

/-- The piece that a character other than a separator is on. -/
theorem exists_piece {separator c : Char} (hc : c ≠ separator) (before after : List Char) :
    ∃ l, (pieces separator (before ++ c :: after))[before.count separator]? = some l ∧ l ≠ [] := by
  induction before with
  | nil =>
      obtain ⟨l, ls, -, hpieces⟩ := exists_pieces_cons hc after
      exact ⟨c :: l, by rw [List.nil_append, hpieces]; rfl, List.cons_ne_nil c l⟩
  | cons d before ih =>
      obtain ⟨l, hl, hne⟩ := ih
      by_cases hd : d = separator
      · refine ⟨l, ?_, hne⟩
        rw [List.cons_append, pieces, if_pos hd, hd, List.count_cons_self, List.getElem?_cons_succ,
          hl]
      · obtain ⟨m, ms, hpieces, hcons⟩ := exists_pieces_cons hd (before ++ c :: after)
        rw [List.cons_append, hcons, List.count_cons_of_ne hd]
        rw [hpieces] at hl
        cases hn : before.count separator with
        | zero => exact ⟨d :: m, rfl, List.cons_ne_nil d m⟩
        | succ n =>
            rw [hn] at hl
            exact ⟨l, hl, hne⟩

theorem length_pieces (separator : Char) (cs : List Char) :
    (pieces separator cs).length = cs.count separator + 1 := by
  induction cs with
  | nil => rfl
  | cons c cs ih =>
      by_cases h : c = separator
      · subst h
        rw [pieces, if_pos rfl, List.length_cons, ih, List.count_cons_self]
      · obtain ⟨l, ls, hpieces, hcons⟩ := exists_pieces_cons h cs
        rw [hcons, List.count_cons_of_ne h, ← ih, hpieces]
        rfl

/-- Every piece has its characters and one separator more, but for the last one. -/
theorem sum_length_pieces (separator : Char) (cs : List Char) :
    ((pieces separator cs).map fun l => l.length + 1).sum = cs.length + 1 := by
  induction cs with
  | nil => rfl
  | cons c cs ih =>
      by_cases h : c = separator
      · rw [pieces, if_pos h, List.map_cons, List.sum_cons, ih, List.length_cons, List.length_nil]
        omega
      · obtain ⟨l, ls, hpieces, hcons⟩ := exists_pieces_cons h cs
        rw [hpieces, List.map_cons, List.sum_cons] at ih
        rw [hcons, List.map_cons, List.sum_cons, List.length_cons, List.length_cons]
        omega

/-! ### The first run of a kind of characters -/

section
variable {p : Char → Bool} {run rest : List Char}

theorem takeWhile_append_of_head? (h : ∀ c ∈ run, p c = true) (hrest : rest.head?.any p = false) :
    (run ++ rest).takeWhile p = run := by
  rw [List.takeWhile_append_of_pos h]
  cases rest with
  | nil => simp
  | cons c rest => rw [List.takeWhile_cons_of_neg (by simpa using hrest), List.append_nil]

theorem dropWhile_append_of_head? (h : ∀ c ∈ run, p c = true) (hrest : rest.head?.any p = false) :
    (run ++ rest).dropWhile p = rest := by
  rw [List.dropWhile_append_of_pos h]
  cases rest with
  | nil => rfl
  | cons c rest => rw [List.dropWhile_cons_of_neg (by simpa using hrest)]

theorem any_head?_dropWhile (p : Char → Bool) (cs : List Char) :
    (cs.dropWhile p).head?.any p = false := by
  have h := List.head?_dropWhile_not p cs
  cases hhead : (cs.dropWhile p).head? with
  | none => rfl
  | some c =>
      rw [hhead] at h
      exact h

end

/-! ### The first of a character -/

/-- A text is cut where a character stands first. -/
theorem span_ne {c : Char} {before : List Char} (h : c ∉ before) (after : List Char) :
    (before ++ c :: after).takeWhile (· != c) = before ∧
      (before ++ c :: after).dropWhile (· != c) = c :: after := by
  have hall : ∀ d ∈ before, (d != c) = true := fun d hd => by
    rw [bne_iff_ne]
    rintro rfl
    exact h hd
  have hhead : (c :: after).head?.any (· != c) = false := by simp
  exact ⟨takeWhile_append_of_head? hall hhead, dropWhile_append_of_head? hall hhead⟩

theorem eq_of_dropWhile_ne {c d : Char} {cs after : List Char}
    (h : cs.dropWhile (· != c) = d :: after) :
    cs = cs.takeWhile (· != c) ++ c :: after ∧ c ∉ cs.takeWhile (· != c) := by
  have hd : d = c := by
    have hhead := List.head?_dropWhile_not (· != c) cs
    rw [h] at hhead
    simpa using hhead
  subst hd
  refine ⟨by rw [← h, List.takeWhile_append_dropWhile], fun hmem => ?_⟩
  have := List.mem_takeWhile_imp hmem
  simp at this

/-! ### White space at the start -/

theorem trimEnd_prefix (cs : List Char) : trimEnd cs <+: cs := by
  fun_induction trimEnd cs with
  | case1 => exact List.nil_prefix
  | case2 c cs h hblank ih => exact List.nil_prefix
  | case3 c cs h hblank ih => exact List.prefix_append [c] cs
  | case4 c cs d ds h ih =>
      rw [h] at ih
      exact List.prefix_cons_inj c |>.mpr ih

/-- A text that does not start with white space. -/
def Flush (cs : List Char) : Prop := ∀ c ∈ cs.head?, isBlank c = false

theorem flush_dropWhile (cs : List Char) : Flush (cs.dropWhile isBlank) := by
  intro c hc
  have := List.head?_dropWhile_not isBlank cs
  rw [Option.mem_def.mp hc] at this
  exact this

theorem dropWhile_of_flush {blanks cs : List Char} (hblanks : ∀ c ∈ blanks, isBlank c = true)
    (h : Flush cs) : (blanks ++ cs).dropWhile isBlank = cs := by
  apply dropWhile_append_of_head? hblanks
  cases cs with
  | nil => rfl
  | cons c cs => exact h c rfl

theorem flush_trim (cs : List Char) : Flush (trim cs) := by
  intro c hc
  obtain ⟨d, ds, hd⟩ : ∃ d ds, trim cs = d :: ds :=
    List.exists_cons_of_ne_nil (by rintro h; rw [h] at hc; cases hc)
  obtain ⟨rest, hrest⟩ := trimEnd_prefix (cs.dropWhile isBlank)
  refine flush_dropWhile cs c ?_
  rw [← hrest]
  show c ∈ (trim cs ++ rest).head?
  rw [hd] at hc ⊢
  exact hc

/-! ### White space and word characters -/

/-- The code points of white space. -/
def blankCodes : List Nat :=
  [9, 10, 11, 12, 13, 0x20, 0x85, 0xA0, 0x1680, 0x2000, 0x2001, 0x2002, 0x2003, 0x2004, 0x2005,
   0x2006, 0x2007, 0x2008, 0x2009, 0x200A, 0x2028, 0x2029, 0x202F, 0x205F, 0x3000]

theorem toNat_mem_blankCodes {c : Char} (h : isBlank c = true) : c.toNat ∈ blankCodes := by
  simp only [isBlank, Bool.or_eq_true, Bool.and_eq_true, decide_eq_true_eq, beq_iff_eq] at h
  simp only [blankCodes, List.mem_cons, List.not_mem_nil, or_false]
  omega

/-- White space is no word character. -/
theorem isWord_of_isBlank {c : Char} (h : isBlank c = true) : isWord c = false := by
  have hcodes : ∀ n ∈ blankCodes, isWord (Char.ofNat n) = false := by decide +kernel
  have hc := hcodes _ (toNat_mem_blankCodes h)
  rwa [Char.ofNat_toNat] at hc

/-! ### Words -/

theorem wordsFrom_append {w : List Char} (h : ∀ c ∈ w, isBlank c = false)
    (pending rest : List Char) :
    wordsFrom pending (w ++ rest) = wordsFrom (w.reverse ++ pending) rest := by
  induction w generalizing pending with
  | nil => rfl
  | cons c w ih =>
      obtain ⟨hc, hw⟩ := List.forall_mem_cons.mp h
      rw [List.cons_append, wordsFrom, hc, List.reverse_cons, List.append_assoc]
      exact ih hw (c :: pending)

theorem words_append_of_blank {gap : List Char} (h : ∀ c ∈ gap, isBlank c = true)
    (rest : List Char) : words (gap ++ rest) = words rest := by
  induction gap with
  | nil => rfl
  | cons c gap ih =>
      obtain ⟨hc, hgap⟩ := List.forall_mem_cons.mp h
      rw [List.cons_append, words, wordsFrom, hc]
      exact ih hgap

/-- A word, a gap, and what comes after it. -/
theorem words_append {w gap rest : List Char} (hne : w ≠ []) (hw : ∀ c ∈ w, isBlank c = false)
    (hgap : ∀ c ∈ gap, isBlank c = true) (hrest : rest ≠ [] → gap ≠ []) :
    words (w ++ (gap ++ rest)) = w :: words rest := by
  have hpending : w.reverse.isEmpty = false := by simpa using hne
  rw [words, wordsFrom_append hw, List.append_nil]
  cases gap with
  | nil =>
      obtain rfl : rest = [] := by
        by_contra h
        exact hrest h rfl
      simp [wordsFrom, words, hne]
  | cons c gap =>
      obtain ⟨hc, hgap⟩ := List.forall_mem_cons.mp hgap
      rw [List.cons_append, wordsFrom, hc, hpending, List.reverse_reverse]
      simp only [if_true, Bool.false_eq_true, if_false]
      exact congrArg (w :: ·) (words_append_of_blank hgap rest)

theorem words_append_end {w gap : List Char} (hne : w ≠ []) (hw : ∀ c ∈ w, isBlank c = false)
    (hgap : ∀ c ∈ gap, isBlank c = true) : words (w ++ gap) = [w] := by
  have hwords := words_append hne hw hgap fun h => absurd rfl h
  rwa [List.append_nil] at hwords

/-- White space ends a word. -/
theorem words_append_cons {c : Char} (h : isBlank c = true) (cs ds : List Char) :
    words (cs ++ c :: ds) = words cs ++ words ds := by
  have hfrom : ∀ pending,
      wordsFrom pending (cs ++ c :: ds) = wordsFrom pending cs ++ words ds := by
    induction cs with
    | nil =>
        intro pending
        show (if isBlank c = true then _ else _) = _
        rw [if_pos h, wordsFrom]
        split <;> rfl
    | cons d cs ih =>
        intro pending
        rw [List.cons_append, wordsFrom, wordsFrom, ih, ih]
        split
        · split
          · rfl
          · exact (List.cons_append ..).symm
        · rfl
  exact hfrom []

theorem wordsFrom_ne_nil {pending : List Char} (h : pending ≠ []) (cs : List Char) :
    wordsFrom pending cs ≠ [] := by
  induction cs generalizing pending with
  | nil => simp [wordsFrom, h]
  | cons c cs ih =>
      rw [wordsFrom]
      split
      · simp [h]
      · exact ih (List.cons_ne_nil c pending)

theorem ne_nil_of_mem_wordsFrom {pending cs w : List Char} (h : w ∈ wordsFrom pending cs) :
    w ≠ [] := by
  fun_induction wordsFrom pending cs with
  | case1 pending hempty => cases h
  | case2 pending hempty =>
      rw [List.mem_singleton.mp h]
      simpa using hempty
  | case3 pending c cs hblank hempty ih => exact ih h
  | case4 pending c cs hblank hempty ih =>
      rcases List.mem_cons.mp h with rfl | h
      · simpa using hempty
      · exact ih h
  | case5 pending c cs hblank ih => exact ih h

theorem eq_nil_of_words_eq_nil {cs : List Char} (h : Flush cs) (hwords : words cs = []) :
    cs = [] := by
  cases cs with
  | nil => rfl
  | cons c cs =>
      rw [words, wordsFrom, h c rfl] at hwords
      exact absurd hwords (wordsFrom_ne_nil (List.cons_ne_nil c []) cs)

/-- The first word of a text, the gap behind it, and the rest. -/
theorem exists_words_eq_cons {cs : List Char} (h : Flush cs) {w : List Char}
    {ws : List (List Char)} (hwords : words cs = w :: ws) :
    ∃ gap rest, cs = w ++ (gap ++ rest) ∧ w ≠ [] ∧ (∀ c ∈ w, isBlank c = false) ∧
      (∀ c ∈ gap, isBlank c = true) ∧ (rest ≠ [] → gap ≠ []) ∧ Flush rest ∧ words rest = ws := by
  let v := cs.takeWhile fun c => !isBlank c
  let after := cs.dropWhile fun c => !isBlank c
  let gap := after.takeWhile isBlank
  let rest := after.dropWhile isBlank
  have hcs : cs = v ++ (gap ++ rest) := by
    rw [List.takeWhile_append_dropWhile, List.takeWhile_append_dropWhile]
  have hv : ∀ c ∈ v, isBlank c = false := fun c hc => by
    simpa using List.mem_takeWhile_imp hc
  have hgap : ∀ c ∈ gap, isBlank c = true := fun c hc => List.mem_takeWhile_imp hc
  have hne : v ≠ [] := by
    cases cs with
    | nil => cases hwords
    | cons c cs => simp [v, h c rfl]
  have hrest : rest ≠ [] → gap ≠ [] := by
    -- what comes after the first word is nothing or starts with white space
    have hhead := List.head?_dropWhile_not (fun c => !isBlank c) cs
    intro hrest
    cases hafter : after with
    | nil => simp [rest, hafter] at hrest
    | cons c as =>
        have hc : isBlank c = true := by simpa [after, hafter] using hhead
        simp [gap, hafter, hc]
  have hcons := words_append hne hv hgap hrest
  rw [← hcs, hwords] at hcons
  obtain ⟨rfl, rfl⟩ := List.cons.inj hcons
  exact ⟨gap, rest, hcs, hne, hv, hgap, hrest, flush_dropWhile after, rfl⟩

end DecisionScore.Text
