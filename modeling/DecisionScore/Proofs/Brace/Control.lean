import DecisionScore.Proofs.Brace.Blocks
import DecisionScore.Proofs.Brace.Heads

/-! # Control statements and the heads of methods

The two tests on a line look at runs of characters at its start.  A keyword is the first run of word
characters (`firstWord_of_leadingKeyword?`).  Where there is no modifier, and no keyword is one, the
type of a method is the first run of type characters (`type_eq_of_methodShape?`).  The runs are the
same unless the character behind the keyword can stand in a type (`runsOn`), and then the list of
control words keeps the tests apart.  It misses `case`, so the control statements that are taken for
heads of methods are those of their shape with `case` or a keyword that runs on
(`methodHeader?_eq_some_of_keyword`). -/

namespace DecisionScore.Brace

open DecisionScore.Text

/-! ### The start of a line -/

/-- The first run of word characters on a line. -/
def firstWord (line : List Char) : List Char := line.takeWhile isWord

/-- The first run of type characters on a line. -/
def firstType (line : List Char) : List Char := line.takeWhile isTypeChar

/-- Whether a type character comes after the first run of word characters on a line. -/
def runsOn (line : List Char) : Bool := (line.dropWhile isWord).head?.any isTypeChar

theorem isTypeChar_of_isWord {c : Char} (h : isWord c = true) : isTypeChar c = true := by
  rw [isTypeChar, h, Bool.true_or]

theorem isTypeChar_of_isBlank {c : Char} (h : isBlank c = true) : isTypeChar c = false := by
  rw [Bool.eq_false_iff]
  intro htype
  rw [isBlank_of_isTypeChar htype] at h
  cases h

theorem flush_of_firstWord_ne_nil {line : List Char} (h : firstWord line ≠ []) : Flush line := by
  intro c hc
  obtain ⟨rest, rfl⟩ := List.head?_eq_some_iff.mp hc
  refine isBlank_of_isWord ?_
  by_contra hword
  exact h (List.takeWhile_cons_of_neg hword)

theorem firstType_eq (line : List Char) :
    firstType line = firstWord line ++ firstType (line.dropWhile isWord) := by
  have hword : ∀ c ∈ firstWord line, isTypeChar c = true :=
    fun c hc => isTypeChar_of_isWord (List.mem_takeWhile_imp hc)
  unfold firstType
  rw [← List.takeWhile_append_of_pos hword, firstWord, List.takeWhile_append_dropWhile]

theorem firstType_of_not_runsOn {line : List Char} (h : runsOn line = false) :
    firstType line = firstWord line := by
  rw [firstType_eq, firstType]
  unfold runsOn at h
  cases hrest : line.dropWhile isWord with
  | nil => simp
  | cons c rest =>
      rw [hrest] at h
      rw [List.takeWhile_cons_of_neg (by simpa using h), List.append_nil]

theorem exists_mem_firstType {line : List Char} (h : runsOn line = true) :
    ∃ c ∈ firstType line, isWord c = false := by
  rw [firstType_eq, firstType]
  have hhead := List.head?_dropWhile_not isWord line
  unfold runsOn at h
  cases hrest : line.dropWhile isWord with
  | nil => rw [hrest] at h; cases h
  | cons c rest =>
      rw [hrest] at h hhead
      rw [List.takeWhile_cons_of_pos (by simpa using h)]
      exact ⟨c, by simp, by simpa using hhead⟩

/-! ### Keywords -/

/-- The first words of control statements that are scored. -/
def keywords : List String := ["else", "if", "for", "while", "switch", "case", "catch"]

/-- All words that the tests on a line know. -/
def knownWords : List String :=
  keywords ++ controlWords ++ methodModifiers ++ "class" :: classModifiers

theorem isWord_of_mem_knownWords {word : String} (h : word ∈ knownWords) :
    ∀ c ∈ word.toList, isWord c = true := by
  have hall : ∀ w ∈ knownWords, w.toList.all isWord = true := by decide
  exact List.all_eq_true.mp (hall word h)

theorem firstWord_of_startsWithWord {word : String} {line : List Char} (hword : word ∈ knownWords)
    (h : startsWithWord word line = true) : String.ofList (firstWord line) = word := by
  unfold startsWithWord at h
  split at h
  · cases h
  · next rest hrest =>
      have hend : rest.head?.any isWord = false := by simpa [continuesWord] using h
      rw [after?_eq_some.mp hrest, firstWord,
        takeWhile_append_of_head? (isWord_of_mem_knownWords hword) hend, String.ofList_toList]

theorem firstWord_of_afterWord? {word : String} {line rest : List Char} (hword : word ∈ knownWords)
    (h : afterWord? word line = some rest) : String.ofList (firstWord line) = word := by
  obtain ⟨gap, hafter, hblank⟩ := Option.bind_eq_some_iff.mp h
  have hend : gap.head?.any isWord = false := by
    unfold afterBlank? at hblank
    split at hblank
    · cases hblank
    · split at hblank
      · next hc => simpa using isWord_of_isBlank hc
      · cases hblank
  rw [after?_eq_some.mp hafter, firstWord,
    takeWhile_append_of_head? (isWord_of_mem_knownWords hword) hend, String.ofList_toList]

/-- A keyword is the first word of its line. -/
theorem firstWord_of_leadingKeyword? {line : List Char} {kind : Construct}
    (h : leadingKeyword? line = some kind) :
    String.ofList (firstWord line) ∈ keywords ∧
      (String.ofList (firstWord line) = "case" ↔ kind = .caseLabel) := by
  have helse : startsWithElseIf line = true → String.ofList (firstWord line) = "else" := by
    intro helse
    unfold startsWithElseIf at helse
    split at helse
    · cases helse
    · next hrest => exact firstWord_of_afterWord? (by decide) hrest
  unfold leadingKeyword? at h
  split at h
  · next hline => cases h; rw [helse hline]; decide
  split at h
  · next hline => cases h; rw [firstWord_of_startsWithWord (by decide) hline]; decide
  split at h
  · next hline => cases h; rw [firstWord_of_startsWithWord (by decide) hline]; decide
  split at h
  · next hline => cases h; rw [firstWord_of_startsWithWord (by decide) hline]; decide
  split at h
  · next hline => cases h; rw [firstWord_of_startsWithWord (by decide) hline]; decide
  split at h
  · next hline => cases h; rw [firstWord_of_startsWithWord (by decide) hline]; decide
  split at h
  · next hline => cases h; rw [firstWord_of_startsWithWord (by decide) hline]; decide
  · cases h

/-- A line that starts with a word that is a keyword is no head of a class. -/
theorem classHeader?_eq_none_of_firstWord {line : List Char}
    (h : String.ofList (firstWord line) ∈ keywords) : classHeader? line = none := by
  have hwords : ∀ word ∈ "class" :: classModifiers, word ∈ knownWords ∧ word ∉ keywords := by
    decide
  have hafter : ∀ word ∈ "class" :: classModifiers, afterWord? word line = none := by
    intro word hmem
    obtain ⟨hknown, hword⟩ := hwords word hmem
    cases hrest : afterWord? word line with
    | none => rfl
    | some rest =>
        rw [firstWord_of_afterWord? hknown hrest] at h
        exact absurd h hword
  obtain ⟨hclass, hmodifiers⟩ := List.forall_mem_cons.mp hafter
  have hdrop : ∀ fuel, dropModifiers classModifiers fuel line = line := by
    rintro (_ | fuel)
    · rfl
    · rw [dropModifiers, List.findSome?_eq_none_iff.mpr hmodifiers]
  rw [classHeader?, hdrop, hclass]

/-! ### The heads of methods -/

/-- The first of several words is followed by white space. -/
theorem exists_blank_of_words {text w v : List Char} {ws : List (List Char)} (h : Flush text)
    (hwords : words text = w :: v :: ws) :
    ∃ c rest, text = w ++ c :: rest ∧ isBlank c = true := by
  obtain ⟨gap, rest, rfl, -, -, hgap, hne, -, hrest⟩ := exists_words_eq_cons h hwords
  have hrest : rest ≠ [] := by
    rintro rfl
    cases hrest
  obtain ⟨c, gap, rfl⟩ := List.exists_cons_of_ne_nil (hne hrest)
  exact ⟨c, gap ++ rest, rfl, hgap c List.mem_cons_self⟩

/-- What is before the parameters starts with a modifier, or with the type. -/
theorem type_eq_of_methodShape? {line type name : List Char} (h : Flush line)
    (hshape : methodShape? line = some (type, name)) :
    String.ofList (firstWord line) ∈ methodModifiers ∨ type = firstType line := by
  have hknown : ∀ m ∈ methodModifiers, m ∈ knownWords := by decide
  obtain ⟨before, parameters, after, hline, hsignature, -⟩ := methodShape?_eq_some.mp hshape
  obtain ⟨modifiers, hwords, hall, htypes, -⟩ := signature?_eq_some.mp hsignature
  have hflush : Flush before := hline.flush h
  cases modifiers with
  | nil =>
      obtain ⟨c, rest, rfl, hc⟩ := exists_blank_of_words hflush hwords
      rw [hline.eq, List.append_assoc, firstType, takeWhile_append_of_head? htypes]
      · exact .inr rfl
      · simpa using isTypeChar_of_isBlank hc
  | cons m ms =>
      obtain ⟨v, ws, hrest⟩ := List.exists_cons_of_ne_nil (l := ms ++ [type, name]) (by simp)
      rw [List.cons_append, hrest] at hwords
      obtain ⟨c, rest, rfl, hc⟩ := exists_blank_of_words hflush hwords
      have hm := hall m List.mem_cons_self
      rw [hline.eq, List.append_assoc, firstWord, takeWhile_append_of_head?]
      · exact .inl hm
      · simpa using isWord_of_mem_knownWords (hknown _ hm)
      · simpa using isWord_of_isBlank hc

/-- Whether the first type of a control statement is a control word. -/
theorem firstType_mem_controlWords {line : List Char} {kind : Construct}
    (h : leadingKeyword? line = some kind) :
    String.ofList (firstType line) ∈ controlWords ↔ kind ≠ .caseLabel ∧ runsOn line = false := by
  have hknown : ∀ w ∈ controlWords, w ∈ knownWords := by decide
  have hkeywords : ∀ w ∈ keywords, w ∈ controlWords ↔ w ≠ "case" := by decide
  obtain ⟨hword, hcase⟩ := firstWord_of_leadingKeyword? h
  cases hruns : runsOn line with
  | true =>
      obtain ⟨c, hc, hnot⟩ := exists_mem_firstType hruns
      refine iff_of_false (fun hmem => ?_) (fun ⟨_, hfalse⟩ => Bool.noConfusion hfalse)
      rw [isWord_of_mem_knownWords (hknown _ hmem) c (by simpa using hc)] at hnot
      cases hnot
  | false =>
      rw [firstType_of_not_runsOn hruns, hkeywords _ hword, ne_eq, hcase]
      simp

/-- The control statements that are taken for heads of methods have their shape, and `case` or a
keyword that runs on for a type. -/
theorem methodHeader?_eq_some_of_keyword {excluded : List String} {line : List Char}
    {kind : Construct} {name : String} (h : leadingKeyword? line = some kind) :
    methodHeader? excluded line = some name ↔
      (∃ type, methodShape? line = some (type, name.toList)) ∧
        (kind = .caseLabel ∨ runsOn line = true) ∧ name ∉ controlWords ∧ name ∉ excluded := by
  have hkeywords : ∀ w ∈ keywords,
      w.toList ≠ [] ∧ w ∉ methodModifiers ∧ ¬ "throw".toList <+: w.toList := by decide
  have hword := (firstWord_of_leadingKeyword? h).1
  obtain ⟨hne, hmodifier, hthrow⟩ := hkeywords _ hword
  have hthrow : ¬ "throw".toList <+: line := by
    rintro ⟨rest, rfl⟩
    have hfirst : firstWord ("throw".toList ++ rest) = "throw".toList ++ firstWord rest :=
      List.takeWhile_append_of_pos (isWord_of_mem_knownWords (by decide))
    rw [hfirst] at hthrow
    exact hthrow (by simp)
  have hflush : Flush line := flush_of_firstWord_ne_nil (by simpa using hne)
  have hcontrol : String.ofList (firstType line) ∉ controlWords ↔
      kind = .caseLabel ∨ runsOn line = true := by
    rw [firstType_mem_controlWords h, not_and_or, not_not, Bool.not_eq_false]
  rw [methodHeader?_eq_some]
  constructor
  · rintro ⟨type, hshape, -, htype, hname, hexcluded⟩
    obtain rfl := (type_eq_of_methodShape? hflush hshape).resolve_left hmodifier
    exact ⟨⟨_, hshape⟩, hcontrol.mp htype, hname, hexcluded⟩
  · rintro ⟨⟨type, hshape⟩, hkind, hname, hexcluded⟩
    obtain rfl := (type_eq_of_methodShape? hflush hshape).resolve_left hmodifier
    exact ⟨_, hshape, hthrow, hcontrol.mpr hkind, hname, hexcluded⟩

/-- **Control statements are no heads of methods** unless they have their shape with `case` or with
a keyword that runs on: they are read as lines of a body, whether a method is open or not. -/
theorem control_lines_read {line : List Char} {kind : Construct}
    (hkeyword : leadingKeyword? line = some kind)
    (hshape : methodShape? line = none ∨ kind ≠ .caseLabel ∧ runsOn line = false)
    (language : Language) (extra : List String) :
    let excluded := language.excludedIdentifiers ++ extra
    methodHeader? excluded line = none ∧
      ∀ (s : Scanner) (n : Nat), s.trimmedLine excluded n line = s.bodyLine n line := by
  have hclass := classHeader?_eq_none_of_firstWord (firstWord_of_leadingKeyword? hkeyword).1
  have hmethod : methodHeader? (language.excludedIdentifiers ++ extra) line = none := by
    rw [Option.eq_none_iff_forall_not_mem]
    intro name hname
    obtain ⟨⟨type, hsome⟩, hkind, -⟩ := (methodHeader?_eq_some_of_keyword hkeyword).mp hname
    rcases hshape with hnone | ⟨hcase, hruns⟩
    · rw [hnone] at hsome
      cases hsome
    · rw [hruns] at hkind
      exact hkind.elim hcase Bool.noConfusion
  refine ⟨hmethod, fun s n => ?_⟩
  simp only [Scanner.trimmedLine, isSkippable_of_keyword hkeyword, hclass,
    opensMethod?_eq_none hmethod, Bool.false_eq_true, if_false]

theorem control_lines_read_sample :
    let excluded := Language.java.excludedIdentifiers ++ ["g"]
    let line := "else if (a) \x7b".toList
    methodHeader? excluded line = none ∧
      (Scanner.initial.trimmedLine excluded 1 line).result.dc = 4 := by
  intro excluded line
  have hkeyword : leadingKeyword? line = some .elseIf := by decide +kernel
  have hruns : runsOn line = false := by decide +kernel
  obtain ⟨hmethod, hread⟩ := control_lines_read hkeyword (.inr ⟨by decide, hruns⟩) .java ["g"]
  refine ⟨hmethod, ?_⟩
  rw [hread]
  decide +kernel

/-- Two control statements that are scored only where a method is open. -/
def headedStatements : List (List Char) := ["case f(x) \x7b".toList, "if<T> f(x) \x7b".toList]

/-- Inside a method. -/
def insideMethod : Scanner := { Scanner.initial with openMethod := some (.start "g") }

theorem control_lines_taken :
    let excluded := Language.java.excludedIdentifiers
    headedStatements.map leadingKeyword? = [some .caseLabel, some .ifBranch] ∧
    headedStatements.map (methodHeader? excluded) = [some "f", some "f"] ∧
    (headedStatements.map fun l => (Scanner.initial.trimmedLine excluded 1 l).result.dc) = [0, 0] ∧
    (headedStatements.map fun l => (insideMethod.trimmedLine excluded 1 l).result.dc) = [2, 4] := by
  decide +kernel

end DecisionScore.Brace
