import DecisionScore.Brace.Scan
import DecisionScore.Proofs.Breakdown

/-! # What the lines of a text do

A line is skipped, opens a class, opens a method, or is read as a line of a body.  `act?` says
which of these a line does in a given state, and `readLines_eq` that a scan is its acts done one
after the other.  Only a line of a body can hold a construct, and at most one: `occurrences` are
the constructs that a scan scores, in order, and the nesting levels and the line scores of the
breakdown are theirs (`levels_readLines`, `lineScore_readLines`). -/

namespace DecisionScore.Brace

/-! ### Constructs on a line -/

/-- Whether a line is taken for a ternary. -/
def looksTernary (line : List Char) : Bool := line.contains '?' && line.contains ':'

/-- The construct on a line of a body. -/
def construct? (line : List Char) : Option Construct :=
  if looksTernary line then some .ternary else leadingKeyword? line

theorem leadingKeyword?_ne_ternary {line : List Char} {k : Construct}
    (h : leadingKeyword? line = some k) : k ≠ .ternary := by
  rintro rfl
  unfold leadingKeyword? at h
  repeat' split at h
  all_goals cases h

/-- A construct as it is scored. -/
structure Occurrence where
  line : Nat
  kind : Construct
  depth : Nat
  /-- The line without white space at either end. -/
  text : List Char
deriving DecidableEq

namespace Occurrence

/-- What the construct contributes to the decisional complexity. -/
def dc (o : Occurrence) : Nat :=
  contribution o.kind o.depth (textWeight (conditionText o.text o.kind))

theorem one_le_dc (o : Occurrence) : 1 ≤ o.dc :=
  one_le_contribution o.kind o.depth (Nat.le_add_left 1 _)

/-- Enters the construct into a breakdown. -/
def addTo (o : Occurrence) (b : Breakdown) : Breakdown :=
  (b.score o.line o.dc).record o.kind o.depth

/-- The stack below a construct; a ternary has nothing below it. -/
def push (o : Occurrence) (nesting : List Construct) : List Construct :=
  if o.kind = .ternary then nesting else o.kind :: nesting

end Occurrence

namespace Scanner

/-- Scores a construct and goes below it. -/
def enter (s : Scanner) (o : Occurrence) : Scanner :=
  { s with nesting := o.push s.nesting }.score o.line o.kind o.depth o.text

/-- The construct that another one at the given depth is noted under: the one below the top of the
stack. -/
def parent? (nesting : List Construct) (depth : Nat) : Option Construct :=
  if depth = 0 then none else nesting[1]?

theorem result_enter (s : Scanner) (o : Occurrence) : (s.enter o).result =
    (parent? (o.push s.nesting) o.depth).elim (o.addTo s.result)
      fun parent => (o.addTo s.result).noteNested parent (o.depth - 1) o.kind := by
  obtain ⟨n, kind, depth, text⟩ := o
  unfold enter score parent?
  cases depth with
  | zero => rfl
  | succ d =>
      simp only [Nat.add_one_ne_zero, if_false]
      match Occurrence.push ⟨n, kind, d + 1, text⟩ s.nesting with
      | [] => rfl
      | [_] => rfl
      | _ :: parent :: _ => rfl

/-- A part of a breakdown that notes do not change is changed by the construct alone. -/
theorem part_enter {β : Type*} (part : Breakdown → β)
    (hnote : ∀ b parent depth child, part (b.noteNested parent depth child) = part b)
    (s : Scanner) (o : Occurrence) : part (s.enter o).result = part (o.addTo s.result) := by
  rw [result_enter]
  cases parent? (o.push s.nesting) o.depth with
  | none => rfl
  | some parent => exact hnote _ _ _ _

/-! ### Acts -/

/-- What a line can do. -/
inductive Act where
  | openClass (name : String)
  | openMethod (name : String)
  /-- Scores the construct on the line, if any, and closes a block if there is a brace. -/
  | body (found : Option Occurrence) (closes : Bool)

/-- The construct an act scores. -/
def Act.occurrence? : Act → Option Occurrence
  | .body found _ => found
  | _ => none

/-- What a line does in a state. -/
def act? (excluded : List String) (s : Scanner) (n : Nat) (raw : List Char) : Option Act :=
  let line := Text.trim raw
  if isSkippable line then none
  else
    match classHeader? line with
    | some name => some (.openClass name)
    | none =>
      match s.opensMethod? excluded line with
      | some name => some (.openMethod name)
      | none =>
        some (.body ((construct? line).map fun k => ⟨n, k, s.nesting.length, line⟩)
          (line.contains '}'))

/-- A construct is on the line that is read, at the depth of the stack, and its text is the line
without white space at either end. -/
theorem of_mem_act? {excluded : List String} {s : Scanner} {n : Nat} {raw : List Char}
    {a : Act} (h : s.act? excluded n raw = some a) :
    ∀ o ∈ a.occurrence?,
      o.line = n ∧ o.depth = s.nesting.length ∧ o.text = Text.trim raw := by
  intro o ho
  simp only [act?] at h
  split at h
  · cases h
  · split at h
    · cases h
      cases ho
    · split at h
      · cases h
        cases ho
      · cases h
        obtain ⟨k, -, rfl⟩ := Option.map_eq_some_iff.mp ho
        exact ⟨rfl, rfl, rfl⟩

/-- A line that does something is neither blank nor a comment. -/
theorem isSkippable_of_act? {excluded : List String} {s : Scanner} {n : Nat} {raw : List Char}
    {a : Act} (h : s.act? excluded n raw = some a) : isSkippable (Text.trim raw) = false := by
  by_contra hskip
  rw [Bool.not_eq_false] at hskip
  simp [act?, hskip] at h

/-- Does an act. -/
def perform (s : Scanner) : Act → Scanner
  | .openClass name => { s.closeClass with openClass := some (.start name) }
  | .openMethod name => { s with openMethod := some (.start name) }
  | .body found closes =>
    let s := found.elim s s.enter
    if closes then s.closeBlock else s

theorem scoreLine_eq (s : Scanner) (n : Nat) (line : List Char) : s.scoreLine n line =
    ((construct? line).map fun k => ⟨n, k, s.nesting.length, line⟩).elim s s.enter := by
  unfold scoreLine construct? looksTernary
  split
  · rfl
  · cases h : leadingKeyword? line with
    | none => rfl
    | some k =>
        have hk := leadingKeyword?_ne_ternary h
        simp [enter, Occurrence.push, hk]

/-- **One line**: what it does is its act. -/
theorem readLine_eq (excluded : List String) (s : Scanner) (n : Nat) (raw : List Char) :
    s.readLine excluded n raw = (s.act? excluded n raw).elim s s.perform := by
  unfold readLine trimmedLine act?
  by_cases hskip : isSkippable (Text.trim raw) = true
  · simp [hskip]
  · simp only [hskip, if_false, Bool.false_eq_true]
    cases classHeader? (Text.trim raw) with
    | some name => rfl
    | none =>
        cases s.opensMethod? excluded (Text.trim raw) with
        | some name => rfl
        | none => simp only [Option.elim_some, perform, bodyLine, scoreLine_eq]

/-- What the lines of a text do, in order. -/
def acts (excluded : List String) : Nat → List (List Char) → Scanner → List Act
  | _, [], _ => []
  | n, l :: ls, s =>
    (s.act? excluded n l).toList ++ acts excluded (n + 1) ls (s.readLine excluded n l)

/-- The constructs that a scan scores, in order. -/
def occurrences (excluded : List String) (n : Nat) (ls : List (List Char)) (s : Scanner) :
    List Occurrence := (acts excluded n ls s).filterMap Act.occurrence?

variable (excluded : List String)

theorem readLines_append (n : Nat) (ls ms : List (List Char)) (s : Scanner) :
    readLines excluded n (ls ++ ms) s =
      readLines excluded (n + ls.length) ms (readLines excluded n ls s) := by
  induction ls generalizing n s with
  | nil => rfl
  | cons l ls ih =>
      rw [List.cons_append, readLines, readLines, ih, List.length_cons, Nat.add_assoc,
        Nat.add_comm 1]

theorem acts_append (n : Nat) (ls ms : List (List Char)) (s : Scanner) :
    acts excluded n (ls ++ ms) s =
      acts excluded n ls s ++ acts excluded (n + ls.length) ms (readLines excluded n ls s) := by
  induction ls generalizing n s with
  | nil => rfl
  | cons l ls ih =>
      rw [List.cons_append, acts, acts, ih, List.append_assoc, readLines, List.length_cons,
        Nat.add_assoc, Nat.add_comm 1]

theorem occurrences_cons (n : Nat) (l : List Char) (ls : List (List Char)) (s : Scanner) :
    occurrences excluded n (l :: ls) s = ((s.act? excluded n l).bind Act.occurrence?).toList ++
      occurrences excluded (n + 1) ls (s.readLine excluded n l) := by
  unfold occurrences
  rw [acts, List.filterMap_append]
  cases h : s.act? excluded n l with
  | none => rfl
  | some a => cases ha : a.occurrence? <;> simp [ha]

theorem occurrences_append (n : Nat) (ls ms : List (List Char)) (s : Scanner) :
    occurrences excluded n (ls ++ ms) s = occurrences excluded n ls s ++
      occurrences excluded (n + ls.length) ms (readLines excluded n ls s) := by
  unfold occurrences
  rw [acts_append, List.filterMap_append]

/-- The constructs from line `n` on are on line `n` or later. -/
theorem le_line_of_mem_occurrences {n : Nat} {ls : List (List Char)} {s : Scanner}
    {o : Occurrence} (h : o ∈ occurrences excluded n ls s) : n ≤ o.line := by
  induction ls generalizing n s with
  | nil => cases h
  | cons l ls ih =>
      rw [occurrences_cons, List.mem_append, Option.mem_toList] at h
      rcases h with h | h
      · obtain ⟨a, ha, ho⟩ := Option.bind_eq_some_iff.mp h
        exact Nat.le_of_eq (of_mem_act? ha o ho).1.symm
      · exact Nat.le_of_succ_le (ih h)

/-- Every construct is on one of the lines, which is neither blank nor a comment. -/
theorem exists_line_of_mem_occurrences {n : Nat} {ls : List (List Char)} {s : Scanner}
    {o : Occurrence} (h : o ∈ occurrences excluded n ls s) :
    ∃ i raw, ls[i]? = some raw ∧ o.line = n + i ∧ isSkippable (Text.trim raw) = false := by
  induction ls generalizing n s with
  | nil => cases h
  | cons l ls ih =>
      rw [occurrences_cons, List.mem_append, Option.mem_toList] at h
      rcases h with h | h
      · obtain ⟨a, ha, ho⟩ := Option.bind_eq_some_iff.mp h
        exact ⟨0, l, rfl, (of_mem_act? ha o ho).1, isSkippable_of_act? ha⟩
      · obtain ⟨i, raw, hraw, hline, hskip⟩ := ih h
        exact ⟨i + 1, raw, hraw, by omega, hskip⟩

/-- No two constructs are on one line. -/
theorem filter_line_occurrences {n : Nat} {ls : List (List Char)} {s : Scanner} {o : Occurrence}
    (h : o ∈ occurrences excluded n ls s) :
    ((occurrences excluded n ls s).filter fun p => p.line = o.line) = [o] := by
  induction ls generalizing n s with
  | nil => cases h
  | cons l ls ih =>
      rw [occurrences_cons] at h ⊢
      have hhead : ∀ p ∈ (s.act? excluded n l).bind Act.occurrence?, p.line = n := by
        intro p hp
        obtain ⟨a, ha, ho⟩ := Option.bind_eq_some_iff.mp hp
        exact (of_mem_act? ha p ho).1
      have hrest := @le_line_of_mem_occurrences excluded (n + 1) ls (s.readLine excluded n l)
      rw [List.filter_append]
      rcases List.mem_append.mp h with h | h
      · -- the construct of the first line: the later ones have other lines
        have ho := Option.mem_toList.mp h
        have hn := hhead o ho
        have hnil : ((occurrences excluded (n + 1) ls (s.readLine excluded n l)).filter
            fun p => p.line = o.line) = [] := by
          refine List.filter_eq_nil_iff.mpr fun p hp => ?_
          have := hrest hp
          simp only [decide_eq_true_eq]
          omega
        rw [hnil, Option.mem_def.mp ho]
        simp
      · have hnil : (((s.act? excluded n l).bind Act.occurrence?).toList.filter
            fun p => p.line = o.line) = [] := by
          refine List.filter_eq_nil_iff.mpr fun p hp => ?_
          have hn := hhead p (Option.mem_toList.mp hp)
          have := hrest h
          simp only [decide_eq_true_eq]
          omega
        rw [hnil, ih h, List.nil_append]

/-- **A whole scan** is its acts, one after the other. -/
theorem readLines_eq (n : Nat) (ls : List (List Char)) (s : Scanner) :
    readLines excluded n ls s = (acts excluded n ls s).foldl perform s := by
  induction ls generalizing n s with
  | nil => rfl
  | cons l ls ih =>
      rw [readLines, ih, acts, List.foldl_append, readLine_eq]
      cases s.act? excluded n l <;> rfl

/-! ### What closing leaves as it was -/

/-- The stack after an act. -/
def Act.after (nesting : List Construct) : Act → List Construct
  | .body found closes =>
    (found.elim nesting fun o => o.push nesting).drop (if closes then 1 else 0)
  | _ => nesting

theorem nesting_closeMethod (s : Scanner) : s.closeMethod.nesting = s.nesting := by
  unfold closeMethod
  split <;> rfl

theorem nesting_closeClass (s : Scanner) : s.closeClass.nesting = s.nesting := by
  unfold closeClass
  split <;> rfl

theorem nesting_closeBlock (s : Scanner) : s.closeBlock.nesting = s.nesting.drop 1 := by
  rw [closeBlock, nesting_closeClass, nesting_closeMethod]

theorem nesting_perform (s : Scanner) (a : Act) : (s.perform a).nesting = a.after s.nesting := by
  cases a with
  | openClass name => exact nesting_closeClass s
  | openMethod name => rfl
  | body found closes =>
      cases closes <;> cases found
      · rfl
      · rfl
      · exact nesting_closeBlock s
      · exact nesting_closeBlock _

/-- A part of the breakdown that closing scopes does not change. -/
theorem part_closeMethod {β : Type*} {part : Breakdown → β}
    (h : ∀ b c, part (b.closeMethod c) = part b) (s : Scanner) :
    part s.closeMethod.result = part s.result := by
  unfold closeMethod
  split
  · rfl
  · exact h _ _

theorem part_closeClass {β : Type*} {part : Breakdown → β}
    (h : ∀ b c, part (b.closeClass c) = part b) (s : Scanner) :
    part s.closeClass.result = part s.result := by
  unfold closeClass
  split
  · rfl
  · exact h _ _

section
variable {β : Type*} (part : Breakdown → β)
  (hmethod : ∀ b c, part (b.closeMethod c) = part b)
  (hclass : ∀ b c, part (b.closeClass c) = part b)
  (hnote : ∀ b parent depth child, part (b.noteNested parent depth child) = part b)
include hmethod hclass hnote

/-- A part of the breakdown that only constructs change, after an act. -/
theorem part_perform (s : Scanner) (a : Act) : part (s.perform a).result =
    a.occurrence?.elim (part s.result) fun o => part (o.addTo s.result) := by
  cases a with
  | openClass name => exact part_closeClass hclass s
  | openMethod name => rfl
  | body found closes =>
      have hfound : part (found.elim s s.enter).result =
          found.elim (part s.result) fun o => part (o.addTo s.result) := by
        cases found with
        | none => rfl
        | some o => exact part_enter part hnote s o
      cases closes with
      | false => exact hfound
      | true => exact ((part_closeClass hclass _).trans (part_closeMethod hmethod _)).trans hfound

/-- A part of the breakdown that only constructs change is theirs to make. -/
theorem part_readLines (f : β → Occurrence → β)
    (hscore : ∀ b o, part (Occurrence.addTo o b) = f (part b) o) (n : Nat)
    (ls : List (List Char)) (s : Scanner) : part (readLines excluded n ls s).result =
      (occurrences excluded n ls s).foldl f (part s.result) := by
  unfold occurrences
  rw [readLines_eq]
  induction acts excluded n ls s generalizing s with
  | nil => rfl
  | cons a as ih =>
      rw [List.foldl_cons, ih, part_perform part hmethod hclass hnote, List.filterMap_cons]
      cases a.occurrence? with
      | none => rfl
      | some o => rw [Option.elim_some, hscore, List.foldl_cons]

omit hnote in
/-- What is still open at the end does not change such a part. -/
theorem part_finish (s : Scanner) : part s.finish = part s.result :=
  (part_closeClass hclass _).trans (part_closeMethod hmethod s)

end

/-! ### Totals -/

section
variable (total : Breakdown → Nat) {g : Occurrence → Nat}
  (hmethod : ∀ b c, total (b.closeMethod c) = total b)
  (hclass : ∀ b c, total (b.closeClass c) = total b)
  (hnote : ∀ b parent depth child, total (b.noteNested parent depth child) = total b)
  (hscore : ∀ b o, total (Occurrence.addTo o b) = total b + g o)
include hmethod hclass hnote hscore

/-- A total that only constructs add to. -/
theorem total_readLines (n : Nat) (ls : List (List Char)) (s : Scanner) :
    total (readLines excluded n ls s).result =
      total s.result + ((occurrences excluded n ls s).map g).sum := by
  calc total (readLines excluded n ls s).result
      _ = (occurrences excluded n ls s).foldl (fun m o => m + g o) (total s.result) :=
          part_readLines excluded total hmethod hclass hnote _ hscore n ls s
      _ = ((occurrences excluded n ls s).map g).foldl (· + ·) (total s.result) :=
          List.foldl_map.symm
      _ = _ := List.foldl_eq_apply_foldr

theorem total_finish (n : Nat) (ls : List (List Char)) (s : Scanner) :
    total (readLines excluded n ls s).finish =
      total s.result + ((occurrences excluded n ls s).map g).sum :=
  (part_finish total hmethod hclass _).trans
    (total_readLines excluded total hmethod hclass hnote hscore n ls s)

end

/-! ### Levels and line scores -/

theorem levels_readLines (n : Nat) (ls : List (List Char)) (s : Scanner) (k : Construct) :
    (readLines excluded n ls s).result.structures.levels k = s.result.structures.levels k ++
      ((occurrences excluded n ls s).filter fun o => o.kind = k).map Occurrence.depth := by
  have hpart := part_readLines excluded (fun b => b.structures.levels k) (fun _ _ => rfl)
    (fun _ _ => rfl) (fun b _ _ _ => b.structures.levels_noteNested _ _ _ _)
    (fun ds o => ds ++ if k = o.kind then [o.depth] else [])
    (fun b o => b.structures.levels_record _ _ _) n ls s
  have hfold : ∀ (os : List Occurrence) (ds : List Nat),
      os.foldl (fun ds o => ds ++ if k = o.kind then [o.depth] else []) ds =
        ds ++ (os.filter fun o => o.kind = k).map Occurrence.depth := by
    intro os
    induction os with
    | nil => simp
    | cons o os ih =>
        intro ds
        rw [List.foldl_cons, ih, List.filter_cons]
        by_cases h : k = o.kind
        · simp [h]
        · simp [h, Ne.symm h]
  rw [hpart, hfold]

theorem lineScore_readLines (n : Nat) (ls : List (List Char)) (s : Scanner) (line : Nat) :
    (readLines excluded n ls s).result.lineScore line = s.result.lineScore line +
      (((occurrences excluded n ls s).filter fun o => o.line = line).map Occurrence.dc).sum := by
  have hscore : ∀ (b : Breakdown) (o : Occurrence), (o.addTo b).lineScore line =
      b.lineScore line + if o.line = line then o.dc else 0 := by
    intro b o
    show ((b.lineScores.upsert o.line _).get? line).getD 0 = _
    rw [SortedMap.get?_upsert]
    by_cases h : o.line = line
    · subst h
      rw [if_pos rfl, if_pos rfl]
      rfl
    · rw [if_neg (Ne.symm h), if_neg h]
      rfl
  have htotal : (readLines excluded n ls s).result.lineScore line = s.result.lineScore line +
      ((occurrences excluded n ls s).map fun o => if o.line = line then o.dc else 0).sum :=
    total_readLines excluded (·.lineScore line) (fun _ _ => rfl) (fun _ _ => rfl)
      (fun _ _ _ _ => rfl) hscore n ls s
  rw [htotal]
  congr 1
  induction occurrences excluded n ls s with
  | nil => rfl
  | cons o os ih =>
      rw [List.map_cons, List.sum_cons, ih, List.filter_cons]
      by_cases h : o.line = line
      · simp [h]
      · simp [h]

end Scanner

end DecisionScore.Brace
