import DecisionScore.Brace.Header
import DecisionScore.Proofs.Pattern
import DecisionScore.Proofs.Text

/-! # The heads of methods

The head of a method as a pattern (`methodPattern`) and as a grammar (`MethodHead`).  The two are
the same on lines that do not start with white space, and the parts of a line that a search with the
pattern keeps are its type and its name, whatever way the search reads the line
(`search?_methodPattern`). -/

namespace DecisionScore.Brace

open DecisionScore.Text DecisionScore.Text.Pattern

/-! ### Names -/

theorem any_toList_eq_iff {ws : List String} {word : List Char} :
    (ws.any fun w => w.toList = word) = true ↔ String.ofList word ∈ ws := by
  rw [List.any_eq_true]
  constructor
  · rintro ⟨w, hw, hword⟩
    rwa [← of_decide_eq_true hword, String.ofList_toList]
  · intro h
    exact ⟨String.ofList word, h, by simp⟩

theorem isControlWord_iff {word : List Char} :
    isControlWord word = true ↔ String.ofList word ∈ controlWords := any_toList_eq_iff

/-- A line is the head of a method if it has the shape of one and neither its first letters nor its
type nor its name speak against it. -/
theorem methodHeader?_eq_some {excluded : List String} {line : List Char} {name : String} :
    methodHeader? excluded line = some name ↔
      ∃ type, methodShape? line = some (type, name.toList) ∧ ¬ "throw".toList <+: line ∧
        String.ofList type ∉ controlWords ∧ name ∉ controlWords ∧ name ∉ excluded := by
  unfold methodHeader?
  cases hshape : methodShape? line with
  | none => simp
  | some found =>
      obtain ⟨type, word⟩ := found
      simp only [Option.some.injEq, Prod.mk.injEq]
      split
      · next h =>
          simp only [Bool.or_eq_true, isControlWord_iff, List.isPrefixOf_iff_prefix,
            List.contains_iff_mem] at h
          constructor
          · intro hname
            cases hname
          · rintro ⟨type', ⟨rfl, rfl⟩, hthrow, htype, hname, hexcluded⟩
            rw [String.ofList_toList] at h
            obtain ((h | h) | h) | h := h
            exacts [absurd h hthrow, absurd h htype, absurd h hname, absurd h hexcluded]
      · next h =>
          simp only [Bool.or_eq_true, isControlWord_iff, List.isPrefixOf_iff_prefix,
            List.contains_iff_mem, not_or] at h
          obtain ⟨⟨⟨hthrow, htype⟩, hname⟩, hexcluded⟩ := h
          constructor
          · rintro ⟨⟩
            exact ⟨type, ⟨rfl, by simp⟩, hthrow, htype, hname, hexcluded⟩
          · rintro ⟨-, ⟨-, rfl⟩, -⟩
            simp

/-! ### The words before the parameters -/

/-- All words but the last two are modifiers, and these are a type and a name. -/
theorem signature?_eq_some {ws : List (List Char)} {type name : List Char} :
    signature? ws = some (type, name) ↔
      ∃ modifiers, ws = modifiers ++ [type, name] ∧
        (∀ m ∈ modifiers, String.ofList m ∈ methodModifiers) ∧
        (∀ c ∈ type, isTypeChar c = true) ∧ ∀ c ∈ name, isWord c = true := by
  fun_induction signature? ws with
  | case1 => simp
  | case2 w => simp [List.cons_eq_append_iff]
  | case3 t n h =>
      simp only [Bool.and_eq_true, List.all_eq_true] at h
      constructor
      · rintro ⟨⟩
        exact ⟨[], rfl, by simp, h⟩
      · rintro ⟨modifiers, hws, -⟩
        obtain ⟨-, rfl, rfl⟩ : modifiers = [] ∧ type = t ∧ name = n := by
          simpa [List.cons_eq_append_iff] using hws
        rfl
  | case4 t n h =>
      simp only [Bool.and_eq_true, List.all_eq_true] at h
      constructor
      · rintro ⟨⟩
      · rintro ⟨modifiers, hws, -, hchars⟩
        obtain ⟨-, rfl, rfl⟩ : modifiers = [] ∧ type = t ∧ name = n := by
          simpa [List.cons_eq_append_iff] using hws
        exact absurd hchars h
  | case5 m rest hne hsingle h ih =>
      rw [ih]
      constructor
      · rintro ⟨modifiers, rfl, hmodifiers, hchars⟩
        exact ⟨m :: modifiers, rfl,
          List.forall_mem_cons.mpr ⟨any_toList_eq_iff.mp h, hmodifiers⟩, hchars⟩
      · rintro ⟨modifiers, hws, hmodifiers, hchars⟩
        obtain ⟨-, hrest⟩ | ⟨modifiers, rfl, rfl⟩ := List.cons_eq_append_iff.mp hws
        · exact (hsingle name (List.cons.inj hrest).2.symm).elim
        · exact ⟨modifiers, rfl, (List.forall_mem_cons.mp hmodifiers).2, hchars⟩
  | case6 m rest hne hsingle h =>
      constructor
      · rintro ⟨⟩
      · rintro ⟨modifiers, hws, hmodifiers, -⟩
        obtain ⟨-, hrest⟩ | ⟨modifiers, rfl, rfl⟩ := List.cons_eq_append_iff.mp hws
        · exact (hsingle name (List.cons.inj hrest).2.symm).elim
        · exact absurd (any_toList_eq_iff.mpr (List.forall_mem_cons.mp hmodifiers).1) h

/-! ### The pattern -/

/-- A modifier and the white space behind it. -/
def modifierPattern : Pattern :=
  .seq (.oneOf (methodModifiers.map fun m => .literal m.toList)) (.many1 isBlank)

/-- A type and a name. -/
def typedNamePattern : Pattern :=
  .seq (.group (.many1 isTypeChar))
    (.seq (.many1 isBlank) (.seq (.group (.many1 isWord)) (.many isBlank)))

/-- What stands before the parameters. -/
def frontPattern : Pattern := .seq (.star modifierPattern) typedNamePattern

/-- The word `const`. -/
def constPattern : Pattern := .seq (.literal "const".toList) (.many isBlank)

/-- The word `throws` and a list of exceptions. -/
def throwsPattern : Pattern :=
  .seq (.literal "throws".toList) (.seq (.many1 isBlank) (.many1 isThrowsChar))

/-- What stands behind the parameters. -/
def tailPattern : Pattern :=
  .seq (.many isBlank)
    (.seq (.optional constPattern) (.seq (.optional throwsPattern) (.char (· == '{'))))

/-- The parameters: what stands between parentheses. -/
def parameterPattern : Pattern :=
  .seq (.char (· == '(')) (.seq (.many (· != ')')) (.char (· == ')')))

/-- The head of a method. -/
def methodPattern : Pattern := .seq frontPattern (.seq parameterPattern tailPattern)

/-! ### Before the parameters -/

theorem isBlank_of_isWord {c : Char} (h : isWord c = true) : isBlank c = false := by
  cases hblank : isBlank c with
  | false => rfl
  | true => rw [isWord_of_isBlank hblank] at h; cases h

theorem isBlank_of_isTypeChar {c : Char} (h : isTypeChar c = true) : isBlank c = false := by
  -- not with a quantifier, which `decide` would take to be over all characters
  have hsymbols : [':', '<', '>', '[', ']', '*', '&'].all (fun c => !isBlank c) = true := by decide
  rw [isTypeChar, Bool.or_eq_true, List.contains_iff_mem] at h
  exact h.elim isBlank_of_isWord fun hc => by simpa using List.all_eq_true.mp hsymbols c hc

theorem isBlank_of_mem_modifier {m : List Char} (h : String.ofList m ∈ methodModifiers) :
    m ≠ [] ∧ ∀ c ∈ m, isBlank c = false := by
  have hall : ∀ w ∈ methodModifiers,
      w.toList ≠ [] ∧ w.toList.all (fun c => !isBlank c) = true := by decide
  simpa using hall _ h

theorem reads_modifierPattern {t : List Char} {g : List (List Char)} :
    Reads modifierPattern t g ↔ ∃ m gap, t = m ++ gap ∧ String.ofList m ∈ methodModifiers ∧
      gap ≠ [] ∧ (∀ c ∈ gap, isBlank c = true) ∧ g = [] := by
  rw [modifierPattern, reads_seq]
  constructor
  · rintro ⟨m, gap, g₁, g₂, rfl, rfl, hm, hgap⟩
    obtain ⟨p, hp, hm⟩ := reads_oneOf.mp hm
    obtain ⟨word, hword, rfl⟩ := List.mem_map.mp hp
    obtain ⟨rfl, rfl⟩ := reads_literal.mp hm
    obtain ⟨hne, hblank, rfl⟩ := reads_many1.mp hgap
    exact ⟨word.toList, gap, rfl, by rwa [String.ofList_toList], hne, hblank, rfl⟩
  · rintro ⟨m, gap, rfl, hm, hne, hblank, rfl⟩
    refine ⟨m, gap, [], [], rfl, rfl, ?_, reads_many1.mpr ⟨hne, hblank, rfl⟩⟩
    exact reads_oneOf.mpr ⟨_, List.mem_map.mpr ⟨_, hm, rfl⟩, reads_literal.mpr ⟨by simp, rfl⟩⟩

theorem reads_typedNamePattern {t : List Char} {g : List (List Char)} :
    Reads typedNamePattern t g ↔ ∃ type gap name blanks,
      t = type ++ (gap ++ (name ++ blanks)) ∧ g = [type, name] ∧
      (type ≠ [] ∧ ∀ c ∈ type, isTypeChar c = true) ∧ (gap ≠ [] ∧ ∀ c ∈ gap, isBlank c = true) ∧
      (name ≠ [] ∧ ∀ c ∈ name, isWord c = true) ∧ ∀ c ∈ blanks, isBlank c = true := by
  simp only [typedNamePattern, reads_seq, reads_group, reads_many1, reads_many]
  constructor
  · rintro ⟨type, _, _, _, rfl, rfl, ⟨_, rfl, htype, hchars, rfl⟩, gap, _, _, _, rfl, rfl,
      ⟨hgap, hblank, rfl⟩, name, blanks, _, _, rfl, rfl, ⟨_, rfl, hname, hword, rfl⟩, hblanks, rfl⟩
    exact ⟨type, gap, name, blanks, rfl, rfl, ⟨htype, hchars⟩, ⟨hgap, hblank⟩, ⟨hname, hword⟩,
      hblanks⟩
  · rintro ⟨type, gap, name, blanks, rfl, rfl, ⟨htype, hchars⟩, ⟨hgap, hblank⟩, ⟨hname, hword⟩,
      hblanks⟩
    exact ⟨type, _, [type], [name], rfl, rfl, ⟨[], rfl, htype, hchars, rfl⟩, gap, _, [], [name],
      rfl, rfl, ⟨hgap, hblank, rfl⟩, name, blanks, [name], [], rfl, rfl, ⟨[], rfl, hname, hword, rfl⟩,
      hblanks, rfl⟩

/-- The words of a text that starts with modifiers. -/
theorem words_modifiers {ts : List (List Char)}
    (h : ∀ t ∈ ts, ∃ g, Reads modifierPattern t g) (rest : List Char) :
    ∃ modifiers, (∀ m ∈ modifiers, String.ofList m ∈ methodModifiers) ∧
      words (ts.flatten ++ rest) = modifiers ++ words rest := by
  induction ts with
  | nil => exact ⟨[], by simp, rfl⟩
  | cons t ts ih =>
      obtain ⟨⟨g, ht⟩, hts⟩ := List.forall_mem_cons.mp h
      obtain ⟨modifiers, hmodifiers, hwords⟩ := ih hts
      obtain ⟨m, gap, rfl, hm, hne, hblank, -⟩ := reads_modifierPattern.mp ht
      obtain ⟨hnil, hchars⟩ := isBlank_of_mem_modifier hm
      refine ⟨m :: modifiers, List.forall_mem_cons.mpr ⟨hm, hmodifiers⟩, ?_⟩
      rw [List.flatten_cons, List.append_assoc, List.append_assoc,
        words_append hnil hchars hblank fun _ => hne, hwords, List.cons_append]

/-- The words that the pattern reads are modifiers, a type and a name. -/
theorem signature?_of_reads {t : List Char} {g : List (List Char)} (h : Reads frontPattern t g) :
    ∃ type name, g = [type, name] ∧ signature? (words t) = some (type, name) := by
  obtain ⟨t₁, t₂, g₁, g₂, rfl, rfl, hmodifiers, hname⟩ := reads_seq.mp h
  obtain ⟨rfl, ts, rfl, hts⟩ := reads_star.mp hmodifiers
  obtain ⟨type, gap, name, blanks, rfl, rfl, ⟨htype, htypes⟩, ⟨hgap, hblank⟩, ⟨hname, hword⟩,
    hblanks⟩ := reads_typedNamePattern.mp hname
  obtain ⟨modifiers, hall, hwords⟩ := words_modifiers (fun t ht => (hts t ht).2)
    (type ++ (gap ++ (name ++ blanks)))
  rw [words_append htype (fun c hc => isBlank_of_isTypeChar (htypes c hc)) hblank fun _ => hgap,
    words_append_end hname (fun c hc => isBlank_of_isWord (hword c hc)) hblanks] at hwords
  exact ⟨type, name, rfl, signature?_eq_some.mpr ⟨modifiers, hwords, hall, htypes, hword⟩⟩

/-- A text whose words are modifiers, a type and a name is read by the pattern. -/
theorem reads_of_signature? {t : List Char} (h : Flush t) {type name : List Char}
    (hsignature : signature? (words t) = some (type, name)) :
    Reads frontPattern t [type, name] := by
  obtain ⟨modifiers, hwords, hall, htypes, hword⟩ := signature?_eq_some.mp hsignature
  clear hsignature
  induction modifiers generalizing t with
  | nil =>
      obtain ⟨gap, rest, rfl, htype, -, hblank, hgap, hrest, hwords⟩ :=
        exists_words_eq_cons h hwords
      obtain ⟨blanks, rest, rfl, hname, -, hblanks, -, hrest, hwords⟩ :=
        exists_words_eq_cons hrest hwords
      obtain rfl := eq_nil_of_words_eq_nil hrest hwords
      have hread :
          Reads typedNamePattern (type ++ (gap ++ (name ++ (blanks ++ [])))) [type, name] :=
        reads_typedNamePattern.mpr ⟨type, gap, name, blanks, by rw [List.append_nil], rfl,
          ⟨htype, htypes⟩, ⟨hgap (by simp [hname]), hblank⟩, ⟨hname, hword⟩, hblanks⟩
      exact .seq .done hread
  | cons m modifiers ih =>
      obtain ⟨hm, hall⟩ := List.forall_mem_cons.mp hall
      obtain ⟨gap, rest, rfl, -, -, hblank, hgap, hrest, hwords⟩ := exists_words_eq_cons h hwords
      have hne : rest ≠ [] := by
        rintro rfl
        simp [words, wordsFrom] at hwords
      have hfirst : Reads modifierPattern (m ++ gap) [] :=
        reads_modifierPattern.mpr ⟨m, gap, rfl, hm, hgap hne, hblank, rfl⟩
      obtain ⟨t₁, t₂, g₁, g₂, rfl, hg, hmodifiers, hname⟩ := reads_seq.mp (ih hrest hwords hall)
      obtain ⟨rfl, -⟩ := reads_star.mp hmodifiers
      rw [← List.append_assoc, ← List.append_assoc, hg]
      exact .seq (.more hfirst hmodifiers) hname

/-! ### Behind the parameters -/

theorem after?_eq_some {start line rest : List Char} :
    after? start line = some rest ↔ line = start ++ rest := by
  unfold after?
  split
  · next h =>
      obtain ⟨rest', rfl⟩ := List.isPrefixOf_iff_prefix.mp h
      simp [eq_comm]
  · next h =>
      constructor
      · rintro ⟨⟩
      · rintro rfl
        simp at h

/-- A list of exceptions: the word `throws`, white space, and at least one character more. -/
def IsThrows (t : List Char) : Prop :=
  ∃ gap names, t = "throws".toList ++ (gap ++ names) ∧ (gap ≠ [] ∧ ∀ c ∈ gap, isBlank c = true) ∧
    names ≠ [] ∧ ∀ c ∈ names, isWord c = true ∨ c ∈ ['.', ','] ∨ isBlank c = true

/-- The word `const` and white space. -/
def IsConst (t : List Char) : Prop :=
  ∃ gap, t = "const".toList ++ gap ∧ ∀ c ∈ gap, isBlank c = true

/-- A text that starts with white space, possibly `const`, possibly a list of exceptions, and a
brace. -/
def MethodTail (text : List Char) : Prop :=
  ∃ blanks const throws rest, text = blanks ++ (const ++ (throws ++ '{' :: rest)) ∧
    (∀ c ∈ blanks, isBlank c = true) ∧ (const = [] ∨ IsConst const) ∧
    (throws = [] ∨ IsThrows throws)

theorem isThrowsChar_iff {c : Char} : isThrowsChar c = true ↔
    isWord c = true ∨ c ∈ ['.', ','] ∨ isBlank c = true := by
  simp [isThrowsChar, or_assoc]

/-- What is read as a list of exceptions ends at the brace. -/
theorem span_throws {list rest : List Char} (h : ∀ c ∈ list, isThrowsChar c = true) :
    (list ++ '{' :: rest).takeWhile isThrowsChar = list ∧
      (list ++ '{' :: rest).dropWhile isThrowsChar = '{' :: rest := by
  have hbrace : isThrowsChar '{' = false := by decide
  exact ⟨takeWhile_append_of_head? h hbrace, dropWhile_append_of_head? h hbrace⟩

theorem opensBody_iff {text : List Char} : opensBody text = true ↔
    ∃ throws rest, text = throws ++ '{' :: rest ∧ (throws = [] ∨ IsThrows throws) := by
  constructor
  · intro h
    unfold opensBody at h
    split at h
    · obtain ⟨rest, rfl⟩ := List.head?_eq_some_iff.mp (of_decide_eq_true h)
      exact ⟨[], rest, rfl, .inl rfl⟩
    · next list hlist =>
        obtain rfl := after?_eq_some.mp hlist
        simp only [Bool.and_eq_true, decide_eq_true_eq] at h
        obtain ⟨⟨hhead, hlength⟩, hbrace⟩ := h
        obtain ⟨rest, hrest⟩ := List.head?_eq_some_iff.mp hbrace
        have hall : ∀ c ∈ list.takeWhile isThrowsChar, isThrowsChar c = true :=
          fun c hc => List.mem_takeWhile_imp hc
        have hsplit : list = list.takeWhile isThrowsChar ++ '{' :: rest := by
          rw [← hrest, List.takeWhile_append_dropWhile]
        match hnames : list.takeWhile isThrowsChar, hlength with
        | c :: d :: names, _ =>
            rw [hnames] at hsplit hall
            subst hsplit
            refine ⟨_, rest, (List.append_assoc ..).symm, .inr ⟨[c], d :: names, rfl, ⟨by simp, ?_⟩,
              by simp, fun e he => isThrowsChar_iff.mp (hall e (List.mem_cons_of_mem c he))⟩⟩
            simpa using hhead
  · rintro ⟨throws, rest, rfl, rfl | ⟨gap, names, rfl, ⟨hgap, hblank⟩, hnames, hchars⟩⟩
    · simp [opensBody, after?]
    · have hall : ∀ c ∈ gap ++ names, isThrowsChar c = true := by
        intro c hc
        rcases List.mem_append.mp hc with hc | hc
        · exact isThrowsChar_iff.mpr (.inr (.inr (hblank c hc)))
        · exact isThrowsChar_iff.mpr (hchars c hc)
      obtain ⟨htake, hdrop⟩ := @span_throws (gap ++ names) rest hall
      have hlist : after? "throws".toList ("throws".toList ++ (gap ++ names) ++ '{' :: rest) =
          some (gap ++ names ++ '{' :: rest) := after?_eq_some.mpr (List.append_assoc ..)
      have hlength : 2 ≤ (gap ++ names).length := by
        have := List.length_pos_iff.mpr hgap
        have := List.length_pos_iff.mpr hnames
        rw [List.length_append]
        omega
      obtain ⟨c, gap, rfl⟩ := List.exists_cons_of_ne_nil hgap
      unfold opensBody
      rw [hlist]
      simp only [htake, hdrop, hlength]
      simp [hblank c List.mem_cons_self]

/-- A text that opens a body starts neither with white space nor with `const`. -/
theorem start_of_opensBody {text : List Char} (h : opensBody text = true) :
    Flush text ∧ after? "const".toList text = none := by
  have hbrace : isBlank '{' = false := by decide
  have hletter : isBlank 't' = false := by decide
  obtain ⟨throws, rest, rfl, rfl | ⟨gap, names, rfl, -⟩⟩ := opensBody_iff.mp h
  · simp [Flush, after?, hbrace]
  · simp [Flush, after?, hletter]

theorem isMethodTail_iff {text : List Char} : isMethodTail text = true ↔ MethodTail text := by
  constructor
  · intro h
    have hblanks : ∀ c ∈ text.takeWhile isBlank, isBlank c = true :=
      fun c hc => List.mem_takeWhile_imp hc
    have hsplit := (List.takeWhile_append_dropWhile (p := isBlank) (l := text)).symm
    simp only [isMethodTail] at h
    split at h
    · obtain ⟨throws, rest, hrest, hthrows⟩ := opensBody_iff.mp h
      exact ⟨_, [], throws, rest, hrest ▸ hsplit, hblanks, .inl rfl, hthrows⟩
    · next list hlist =>
        obtain ⟨throws, rest, hrest, hthrows⟩ := opensBody_iff.mp h
        have hgap : ∀ c ∈ list.takeWhile isBlank, isBlank c = true :=
          fun c hc => List.mem_takeWhile_imp hc
        have hlist : text.dropWhile isBlank = _ := after?_eq_some.mp hlist
        refine ⟨_, "const".toList ++ list.takeWhile isBlank, throws, rest, ?_, hblanks,
          .inr ⟨_, rfl, hgap⟩, hthrows⟩
        rw [← hrest, List.append_assoc, List.takeWhile_append_dropWhile, ← hlist]
        exact hsplit
  · rintro ⟨blanks, const, throws, rest, rfl, hblanks, hconst, hthrows⟩
    have hbody := opensBody_iff.mpr ⟨throws, rest, rfl, hthrows⟩
    obtain ⟨hflush, hnone⟩ := start_of_opensBody hbody
    unfold isMethodTail
    rcases hconst with rfl | ⟨gap, rfl, hgap⟩
    · rw [List.nil_append, dropWhile_of_flush hblanks hflush]
      simp only [hnone, hbody]
    · have hstart : Flush ("const".toList ++ gap ++ (throws ++ '{' :: rest)) := by
        have hletter : isBlank 'c' = false := by decide
        simp [Flush, hletter]
      have hafter : after? "const".toList ("const".toList ++ gap ++ (throws ++ '{' :: rest)) =
          some (gap ++ (throws ++ '{' :: rest)) := after?_eq_some.mpr (List.append_assoc ..)
      rw [dropWhile_of_flush hblanks hstart]
      simp only [hafter, dropWhile_of_flush hgap hflush, hbody]

theorem reads_constPattern {t : List Char} {g : List (List Char)} :
    Reads constPattern t g ↔ IsConst t ∧ g = [] := by
  rw [constPattern, reads_seq]
  constructor
  · rintro ⟨t₁, gap, g₁, g₂, rfl, rfl, hword, hgap⟩
    obtain ⟨rfl, rfl⟩ := reads_literal.mp hword
    obtain ⟨hblank, rfl⟩ := reads_many.mp hgap
    exact ⟨⟨gap, rfl, hblank⟩, rfl⟩
  · rintro ⟨⟨gap, rfl, hblank⟩, rfl⟩
    exact ⟨_, gap, [], [], rfl, rfl, reads_literal.mpr ⟨rfl, rfl⟩, reads_many.mpr ⟨hblank, rfl⟩⟩

theorem reads_throwsPattern {t : List Char} {g : List (List Char)} :
    Reads throwsPattern t g ↔ IsThrows t ∧ g = [] := by
  simp only [throwsPattern, reads_seq, reads_many1, isThrowsChar_iff]
  constructor
  · rintro ⟨t₁, t₂, g₁, g₂, rfl, rfl, hword, gap, names, g₃, g₄, rfl, rfl, ⟨hgap, hblank, rfl⟩,
      hnames, hchars, rfl⟩
    obtain ⟨rfl, rfl⟩ := reads_literal.mp hword
    exact ⟨⟨gap, names, rfl, ⟨hgap, hblank⟩, hnames, hchars⟩, rfl⟩
  · rintro ⟨⟨gap, names, rfl, ⟨hgap, hblank⟩, hnames, hchars⟩, rfl⟩
    exact ⟨_, _, [], [], rfl, rfl, reads_literal.mpr ⟨rfl, rfl⟩, gap, names, [], [], rfl, rfl,
      ⟨hgap, hblank, rfl⟩, hnames, hchars, rfl⟩

theorem reads_tailPattern {t : List Char} {g : List (List Char)} :
    Reads tailPattern t g ↔ g = [] ∧ ∃ blanks const throws,
      t = blanks ++ (const ++ (throws ++ ['{'])) ∧ (∀ c ∈ blanks, isBlank c = true) ∧
      (const = [] ∨ IsConst const) ∧ (throws = [] ∨ IsThrows throws) := by
  have hoptional : ∀ {p : Pattern} {P : List Char → Prop},
      (∀ {t g}, Reads p t g ↔ P t ∧ g = []) → ∀ {t g}, Reads (optional p) t g ↔
        (t = [] ∨ P t) ∧ g = [] := by
    intro p P h t g
    rw [reads_optional, h, or_comm, ← or_and_right]
  simp only [tailPattern, reads_seq, reads_many, reads_char, hoptional reads_constPattern,
    hoptional reads_throwsPattern, beq_iff_eq]
  constructor
  · rintro ⟨blanks, _, _, _, rfl, rfl, ⟨hblanks, rfl⟩, const, _, _, _, rfl, rfl, ⟨hconst, rfl⟩,
      throws, _, _, _, rfl, rfl, ⟨hthrows, rfl⟩, _, rfl, rfl, rfl⟩
    exact ⟨rfl, blanks, const, throws, rfl, hblanks, hconst, hthrows⟩
  · rintro ⟨rfl, blanks, const, throws, rfl, hblanks, hconst, hthrows⟩
    exact ⟨blanks, _, [], [], rfl, rfl, ⟨hblanks, rfl⟩, const, _, [], [], rfl, rfl, ⟨hconst, rfl⟩,
      throws, _, [], [], rfl, rfl, ⟨hthrows, rfl⟩, '{', rfl, rfl, rfl⟩

/-- The texts that the pattern reads the beginning of. -/
theorem methodTail_iff_reads {text : List Char} :
    MethodTail text ↔ ∃ t r, text = t ++ r ∧ Reads tailPattern t [] := by
  constructor
  · rintro ⟨blanks, const, throws, rest, rfl, hparts⟩
    exact ⟨blanks ++ (const ++ (throws ++ ['{'])), rest, by simp,
      reads_tailPattern.mpr ⟨rfl, blanks, const, throws, rfl, hparts⟩⟩
  · rintro ⟨t, rest, rfl, hread⟩
    obtain ⟨-, blanks, const, throws, rfl, hparts⟩ := reads_tailPattern.mp hread
    exact ⟨blanks, const, throws, rest, by simp, hparts⟩

/-! ### The whole line -/

/-- A line that starts with a text, parameters in parentheses, and another text. -/
structure Parted (line before parameters after : List Char) : Prop where
  eq : line = before ++ '(' :: (parameters ++ ')' :: after)
  before : '(' ∉ before
  parameters : ')' ∉ parameters

theorem Parted.flush {line before parameters after : List Char}
    (h : Parted line before parameters after) (hline : Flush line) : Flush before := by
  intro c hc
  refine hline c ?_
  rw [h.eq, List.head?_append, Option.mem_def.mp hc]
  rfl

theorem methodShape?_eq_some {line type name : List Char} :
    methodShape? line = some (type, name) ↔ ∃ before parameters after,
      Parted line before parameters after ∧ signature? (words before) = some (type, name) ∧
        isMethodTail after = true := by
  constructor
  · intro h
    unfold methodShape? at h
    split at h
    · next hopen hsignature =>
        obtain ⟨hline, hbefore⟩ := eq_of_dropWhile_ne hopen
        split at h
        · next hclose =>
            obtain ⟨hrest, hparameters⟩ := eq_of_dropWhile_ne hclose
            split at h
            · next htail =>
                cases h
                exact ⟨_, _, _, ⟨hrest ▸ hline, hbefore, hparameters⟩, hsignature, htail⟩
            · cases h
        · cases h
    · cases h
  · rintro ⟨before, parameters, after, ⟨rfl, hbefore, hparameters⟩, hsignature, htail⟩
    obtain ⟨htake, hdrop⟩ := span_ne hbefore (parameters ++ ')' :: after)
    obtain ⟨-, hclose⟩ := span_ne hparameters after
    unfold methodShape?
    simp only [htake, hdrop, hsignature, hclose, htail, if_true]

theorem reads_parameterPattern {t : List Char} {g : List (List Char)} :
    Reads parameterPattern t g ↔
      ∃ parameters, t = '(' :: (parameters ++ [')']) ∧ ')' ∉ parameters ∧ g = [] := by
  simp only [parameterPattern, reads_seq, reads_char, reads_many, beq_iff_eq, bne_iff_ne]
  constructor
  · rintro ⟨_, _, _, _, rfl, rfl, ⟨_, rfl, rfl, rfl⟩, parameters, _, _, _, rfl, rfl,
      ⟨hparameters, rfl⟩, _, rfl, rfl, rfl⟩
    exact ⟨parameters, rfl, fun hmem => hparameters _ hmem rfl, rfl⟩
  · rintro ⟨parameters, rfl, hparameters, rfl⟩
    refine ⟨['('], _, [], [], rfl, rfl, ⟨_, rfl, rfl, rfl⟩, parameters, [')'], [], [], rfl, rfl,
      ⟨?_, rfl⟩, _, rfl, rfl, rfl⟩
    rintro c hc rfl
    exact hparameters hc

/-- The ways in which the pattern reads the beginning of a line. -/
theorem exists_reads_methodPattern {line : List Char} {g : List (List Char)} :
    (∃ t r, line = t ++ r ∧ Reads methodPattern t g) ↔ ∃ before parameters after,
      Parted line before parameters after ∧ Reads frontPattern before g ∧ MethodTail after := by
  constructor
  · rintro ⟨_, r, rfl, h⟩
    obtain ⟨before, _, g, _, rfl, rfl, hfront, hrest⟩ := reads_seq.mp h
    obtain ⟨_, tail, _, _, rfl, rfl, hgroup, htail⟩ := reads_seq.mp hrest
    obtain ⟨parameters, rfl, hparameters, rfl⟩ := reads_parameterPattern.mp hgroup
    obtain ⟨rfl, -⟩ := reads_tailPattern.mp htail
    have hbefore : '(' ∉ before := not_mem_of_avoids (by decide) hfront
    exact ⟨before, parameters, tail ++ r, ⟨by simp, hbefore, hparameters⟩, by simpa using hfront,
      methodTail_iff_reads.mpr ⟨tail, r, rfl, htail⟩⟩
  · rintro ⟨before, parameters, after, ⟨rfl, -, hparameters⟩, hfront, htail⟩
    obtain ⟨tail, r, rfl, hread⟩ := methodTail_iff_reads.mp htail
    have hgroup := reads_parameterPattern.mpr ⟨parameters, rfl, hparameters, rfl⟩
    refine ⟨before ++ ('(' :: (parameters ++ [')']) ++ tail), r, by simp, ?_⟩
    simpa [methodPattern] using Reads.seq hfront (.seq hgroup hread)

/-- On a line that does not start with white space, all ways to read with the pattern have the type
and the name of the line for their groups. -/
theorem exists_reads_iff_methodShape? {line : List Char} (h : Flush line)
    {g : List (List Char)} : (∃ t r, line = t ++ r ∧ Reads methodPattern t g) ↔
      ∃ type name, g = [type, name] ∧ methodShape? line = some (type, name) := by
  rw [exists_reads_methodPattern]
  constructor
  · rintro ⟨before, parameters, after, hline, hfront, htail⟩
    obtain ⟨type, name, rfl, hsignature⟩ := signature?_of_reads hfront
    exact ⟨type, name, rfl, methodShape?_eq_some.mpr
      ⟨before, parameters, after, hline, hsignature, isMethodTail_iff.mpr htail⟩⟩
  · rintro ⟨type, name, rfl, hshape⟩
    obtain ⟨before, parameters, after, hline, hsignature, htail⟩ := methodShape?_eq_some.mp hshape
    exact ⟨before, parameters, after, hline, reads_of_signature? (hline.flush h) hsignature,
      isMethodTail_iff.mp htail⟩

/-- **A search with the pattern** finds the type and the name of the line. -/
theorem search?_methodPattern {line : List Char} (h : Flush line) :
    methodPattern.search? line = (methodShape? line).map fun found => [found.1, found.2] := by
  cases hshape : methodShape? line with
  | none =>
      refine search?_eq_none fun t r g ht hread => ?_
      obtain ⟨type, name, -, hsome⟩ := (exists_reads_iff_methodShape? h).mp ⟨t, r, ht, hread⟩
      rw [hshape] at hsome
      cases hsome
  | some found =>
      refine search?_eq_some ((exists_reads_iff_methodShape? h).mpr ⟨_, _, rfl, hshape⟩) ?_
      intro t r g ht hread
      obtain ⟨type, name, rfl, hsome⟩ := (exists_reads_iff_methodShape? h).mp ⟨t, r, ht, hread⟩
      rw [hshape] at hsome
      cases hsome
      rfl

/-! ### The grammar of a method head -/

/-- A line with a type and a name before its first parenthesis, possibly behind modifiers, and with
the brace of a body behind the parameters. -/
def MethodHead (line type name : List Char) : Prop :=
  ∃ before parameters after modifiers, Parted line before parameters after ∧
    words before = modifiers ++ [type, name] ∧
    (∀ m ∈ modifiers, String.ofList m ∈ methodModifiers) ∧
    (type ≠ [] ∧ ∀ c ∈ type, isWord c = true ∨ c ∈ [':', '<', '>', '[', ']', '*', '&']) ∧
    (name ≠ [] ∧ ∀ c ∈ name, isWord c = true) ∧ MethodTail after

theorem methodHead_iff {line type name : List Char} :
    MethodHead line type name ↔ methodShape? line = some (type, name) := by
  have hchars : (∀ c ∈ type, isTypeChar c = true) ↔
      ∀ c ∈ type, isWord c = true ∨ c ∈ [':', '<', '>', '[', ']', '*', '&'] := by
    simp only [isTypeChar, Bool.or_eq_true, List.contains_iff_mem]
  rw [methodShape?_eq_some]
  constructor
  · rintro ⟨before, parameters, after, modifiers, hline, hwords, hmodifiers, ⟨-, htype⟩, ⟨-, hname⟩,
      htail⟩
    exact ⟨before, parameters, after, hline,
      signature?_eq_some.mpr ⟨modifiers, hwords, hmodifiers, hchars.mpr htype, hname⟩,
      isMethodTail_iff.mpr htail⟩
  · rintro ⟨before, parameters, after, hline, hsignature, htail⟩
    obtain ⟨modifiers, hwords, hmodifiers, htype, hname⟩ := signature?_eq_some.mp hsignature
    have hne : ∀ w ∈ modifiers ++ [type, name], w ≠ [] := fun w hw =>
      ne_nil_of_mem_wordsFrom (hwords.symm ▸ hw)
    exact ⟨before, parameters, after, modifiers, hline, hwords, hmodifiers,
      ⟨hne type (by simp), hchars.mp htype⟩, ⟨hne name (by simp), hname⟩, isMethodTail_iff.mp htail⟩

/-- **The heads of methods.**  On a line without white space at either end, a search with the
pattern of method heads keeps the type and the name that `methodShape?` gives.  The line is the head
of a method of the given name just if it has the grammar of one, does not start with `throw`, its
type and its name are no control words, and the name is not excluded. -/
theorem methodHeader?_eq_some_iff_grammar (language : Language) (extra : List String)
    (raw : List Char) (name : String) :
    let line := Text.trim raw
    methodPattern.search? line = (methodShape? line).map (fun found => [found.1, found.2]) ∧
    (methodHeader? (language.excludedIdentifiers ++ extra) line = some name ↔
      ∃ type, MethodHead line type name.toList ∧ ¬ "throw".toList <+: line ∧
        String.ofList type ∉ controlWords ∧ name ∉ controlWords ∧
        name ∉ language.excludedIdentifiers ∧ name ∉ extra) := by
  intro line
  refine ⟨search?_methodPattern (flush_trim raw), ?_⟩
  simp only [methodHeader?_eq_some, methodHead_iff, List.mem_append, not_or]

/-- The last two words are the type and the name even where they are modifiers. -/
example : methodHeader? [] "public static(int a) \x7b".toList = some "static" := by decide +kernel

end DecisionScore.Brace
