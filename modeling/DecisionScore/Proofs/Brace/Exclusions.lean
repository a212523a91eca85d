import DecisionScore.Proofs.Brace.Heads
import DecisionScore.Proofs.Brace.Windows

/-! # Excluded names

No method has an excluded name (`methodHeader?_of_mem_keys`), and this is all that excluding names
does: without its methods, the state of a scan is that of one that looks for none
(`readLine_withoutMethods`).  Lines of the shape of a method head that also do something as lines of
a body are the exception, since they do it only where they are not taken for heads. -/

namespace DecisionScore

/-- A breakdown without its methods. -/
def Breakdown.withoutMethods (b : Breakdown) : Breakdown := { b with methods := ∅ }

namespace Brace

open Scanner

/-! ### The names of methods -/

theorem exists_opens_of_mem {r : Register} {n : Nat} {ks : List LineKind} {w : Window}
    (h : w ∈ windows r n ks) : ∃ k ∈ ks, r.opens? k = some w.name := by
  induction ks generalizing n with
  | nil => cases h
  | cons k ks ih =>
      rw [windows, List.mem_append, Option.mem_toList] at h
      rcases h with h | h
      · obtain ⟨name, hname, rfl⟩ := Option.map_eq_some_iff.mp h
        exact ⟨k, List.mem_cons_self, hname⟩
      · obtain ⟨k', hk', hname⟩ := ih h
        exact ⟨k', List.mem_cons_of_mem k hk', hname⟩

theorem exists_lineKind_of_mem {excluded : List String} {inMethod : Bool} {ls : List (List Char)}
    {k : LineKind} (h : k ∈ lineKinds excluded inMethod ls) :
    ∃ inMethod, ∃ raw ∈ ls, k = lineKind excluded inMethod raw := by
  induction ls generalizing inMethod with
  | nil => cases h
  | cons l ls ih =>
      rcases List.mem_cons.mp h with rfl | h
      · exact ⟨inMethod, l, List.mem_cons_self, rfl⟩
      · obtain ⟨inMethod', raw, hraw, hk⟩ := ih h
        exact ⟨inMethod', raw, List.mem_cons_of_mem l hraw, hk⟩

theorem methodHeader?_of_opens {excluded : List String} {inMethod : Bool} {raw : List Char}
    {name : String} (h : Register.methods.opens? (lineKind excluded inMethod raw) = some name) :
    methodHeader? excluded (Text.trim raw) = some name := by
  unfold lineKind at h
  simp only at h
  split at h
  · cases h
  · split at h
    · cases h
    · split at h
      · next hname =>
          cases h
          cases inMethod with
          | false => exact hname
          | true => cases hname
      · cases h

/-- The name of a method is that of a line which is the head of one. -/
theorem methodHeader?_of_mem_keys {language : Language} {extra : List String} {source : String}
    {name : String} (h : name ∈ (breakdown language extra source).methods.keys) :
    ∃ raw ∈ Text.splitLines source.toList,
      methodHeader? (language.excludedIdentifiers ++ extra) (Text.trim raw) = some name := by
  have hclosed : (breakdown language extra source).methods = _ :=
    closed_breakdown language extra source .methods
  rw [hclosed] at h
  obtain ⟨e, he, rfl⟩ := List.mem_map.mp h
  obtain ⟨w, hw, rfl⟩ := List.mem_map.mp (SortedMap.mem_of_mem_ofList he)
  obtain ⟨k, hk, hname⟩ := exists_opens_of_mem hw
  obtain ⟨inMethod, raw, hraw, rfl⟩ := exists_lineKind_of_mem hk
  exact ⟨raw, hraw, methodHeader?_of_opens hname⟩

/-! ### Scans without methods -/

/-- Whether a line has the shape of a method head, so that it depends on the excluded names whether
it is one. -/
def looksLikeHead (line : List Char) : Bool :=
  !isSkippable line && (classHeader? line).isNone && (methodShape? line).any fun (type, name) =>
    !"throw".toList.isPrefixOf line && !isControlWord type && !isControlWord name

/-- A line that does nothing as a line of a body. -/
def isInert (line : List Char) : Bool :=
  !line.contains '}' && !looksTernary line && (leadingKeyword? line).isNone

theorem looksLikeHead_of_methodHeader? {excluded : List String} {line : List Char} {name : String}
    (hskip : isSkippable line = false) (hclass : classHeader? line = none)
    (h : methodHeader? excluded line = some name) : looksLikeHead line = true := by
  obtain ⟨type, hshape, hthrow, htype, hname, -⟩ := methodHeader?_eq_some.mp h
  have hthrow : "throw".toList.isPrefixOf line = false :=
    Bool.eq_false_iff.mpr fun hp => hthrow (List.isPrefixOf_iff_prefix.mp hp)
  have htype : isControlWord type = false :=
    Bool.eq_false_iff.mpr fun hw => htype (isControlWord_iff.mp hw)
  have hname : isControlWord name.toList = false :=
    Bool.eq_false_iff.mpr fun hw => hname (by simpa using isControlWord_iff.mp hw)
  simp only [looksLikeHead, hskip, hclass, hshape, Option.isNone_none, Option.any_some, hthrow,
    htype, hname, Bool.not_false, Bool.and_self]

namespace Scanner

/-- The state of a scan without its methods. -/
def withoutMethods (s : Scanner) : Scanner :=
  { s with openMethod := none, result := s.result.withoutMethods }

/-- Reads a line as if there were no methods. -/
def readMethodless (s : Scanner) (n : Nat) (raw : List Char) : Scanner :=
  let line := Text.trim raw
  if isSkippable line then s
  else
    match classHeader? line with
    | some name => { s.closeClass with openClass := some (.start name) }
    | none => s.bodyLine n line

theorem closeMethod_withoutMethods (s : Scanner) :
    s.closeMethod.withoutMethods = s.withoutMethods := by
  unfold closeMethod
  split <;> rfl

theorem closeClass_withoutMethods (s : Scanner) :
    s.closeClass.withoutMethods = s.withoutMethods.closeClass := by
  obtain ⟨nesting, openMethod, openClass, result⟩ := s
  cases openClass <;> rfl

theorem closeBlock_withoutMethods (s : Scanner) :
    s.closeBlock.withoutMethods = s.withoutMethods.closeBlock := by
  unfold closeBlock
  rw [closeClass_withoutMethods, closeMethod_withoutMethods]
  rfl

theorem score_withoutMethods (s : Scanner) (n : Nat) (kind : Construct) (depth : Nat)
    (line : List Char) : (s.score n kind depth line).withoutMethods =
      s.withoutMethods.score n kind depth line := by
  unfold score withoutMethods
  simp only [Option.map_none, mk.injEq, true_and]
  split
  · rfl
  · split <;> rfl

theorem bodyLine_withoutMethods (s : Scanner) (n : Nat) (line : List Char) :
    (s.bodyLine n line).withoutMethods = s.withoutMethods.bodyLine n line := by
  have hscore : (s.scoreLine n line).withoutMethods = s.withoutMethods.scoreLine n line := by
    unfold scoreLine
    simp only
    split
    · exact score_withoutMethods s n _ _ line
    · split
      · next kind _ => exact score_withoutMethods { s with nesting := kind :: s.nesting } n _ _ line
      · rfl
  unfold bodyLine
  simp only
  split
  · rw [closeBlock_withoutMethods, hscore]
  · exact hscore

theorem bodyLine_of_isInert {line : List Char} (h : isInert line = true) (s : Scanner) (n : Nat) :
    s.bodyLine n line = s := by
  simp only [isInert, looksTernary, Bool.and_eq_true, Bool.not_eq_true',
    Option.isNone_iff_eq_none] at h
  obtain ⟨⟨hbrace, hternary⟩, hkeyword⟩ := h
  simp only [bodyLine, scoreLine, hbrace, hternary, hkeyword, Bool.false_eq_true, if_false]

/-- **One line**: whether it is taken for the head of a method does not show without methods. -/
theorem readLine_withoutMethods {raw : List Char}
    (h : looksLikeHead (Text.trim raw) = true → isInert (Text.trim raw) = true)
    (excluded : List String) (s : Scanner) (n : Nat) :
    (s.readLine excluded n raw).withoutMethods = s.withoutMethods.readMethodless n raw := by
  unfold readLine trimmedLine readMethodless
  simp only
  cases hskip : isSkippable (Text.trim raw) with
  | true => simp only [if_true]
  | false =>
      cases hclass : classHeader? (Text.trim raw) with
      | some name =>
          simp only [Bool.false_eq_true, if_false, ← closeClass_withoutMethods]
          rfl
      | none =>
          simp only [Bool.false_eq_true, if_false]
          cases hopens : s.opensMethod? excluded (Text.trim raw) with
          | some name =>
              -- The line is a head here; elsewhere it may be read as a line of a body.
              have hname : methodHeader? excluded (Text.trim raw) = some name := by
                unfold opensMethod? at hopens
                split at hopens
                · cases hopens
                · exact hopens
              exact (bodyLine_of_isInert (h (looksLikeHead_of_methodHeader? hskip hclass hname))
                s.withoutMethods n).symm
          | none => exact bodyLine_withoutMethods s n (Text.trim raw)

/-- **All lines**: scans with different excluded names go on alike, up to their methods. -/
theorem readLines_withoutMethods {ls : List (List Char)}
    (h : ∀ raw ∈ ls, looksLikeHead (Text.trim raw) = true → isInert (Text.trim raw) = true)
    (excluded excluded' : List String) (n : Nat) {s t : Scanner}
    (hst : s.withoutMethods = t.withoutMethods) :
    (readLines excluded n ls s).withoutMethods = (readLines excluded' n ls t).withoutMethods := by
  induction ls generalizing n s t with
  | nil => exact hst
  | cons l ls ih =>
      obtain ⟨hl, hls⟩ := List.forall_mem_cons.mp h
      refine ih hls (n + 1) ?_
      rw [readLine_withoutMethods hl, readLine_withoutMethods hl, hst]

theorem finish_withoutMethods (s : Scanner) :
    s.withoutMethods.finish = s.finish.withoutMethods := by
  obtain ⟨nesting, openMethod, openClass, result⟩ := s
  cases openMethod <;> cases openClass <;> rfl

end Scanner

/-- **Excluding names affects methods only.**  No method has an excluded name or a control word for
a name.  And where no line of the shape of a method head does anything as a line of a body, the
language and the excluded names change nothing but the methods. -/
theorem exclusions_affect_methods (language : Language) (extra : List String) (source : String) :
    (∀ name ∈ (breakdown language extra source).methods.keys,
      name ∉ extra ∧ name ∉ language.excludedIdentifiers ∧ name ∉ controlWords) ∧
    ((∀ raw ∈ Text.splitLines source.toList, looksLikeHead (Text.trim raw) = true →
        '}' ∉ Text.trim raw ∧ ¬ ('?' ∈ Text.trim raw ∧ ':' ∈ Text.trim raw) ∧
          leadingKeyword? (Text.trim raw) = none) →
      ∀ (language' : Language) (extra' : List String),
        let b := breakdown language extra source
        let c := breakdown language' extra' source
        b.dc = c.dc ∧ b.cc = c.cc ∧ b.lineScores = c.lineScores ∧ b.classes = c.classes ∧
          b.structures = c.structures) := by
  refine ⟨fun name hname => ?_, fun h language' extra' => ?_⟩
  · obtain ⟨raw, -, hhead⟩ := methodHeader?_of_mem_keys hname
    obtain ⟨-, -, -, -, hcontrol, hexcluded⟩ := methodHeader?_eq_some.mp hhead
    rw [List.mem_append, not_or] at hexcluded
    exact ⟨hexcluded.2, hexcluded.1, hcontrol⟩
  · have hinert : ∀ raw ∈ Text.splitLines source.toList,
        looksLikeHead (Text.trim raw) = true → isInert (Text.trim raw) = true := by
      intro raw hraw hlooks
      obtain ⟨hbrace, hternary, hkeyword⟩ := h raw hraw hlooks
      have hternary : looksTernary (Text.trim raw) = false := by
        rw [looksTernary, Bool.eq_false_iff]
        simpa using hternary
      simp [isInert, hternary, hbrace, hkeyword]
    have hstates := readLines_withoutMethods hinert (language.excludedIdentifiers ++ extra)
      (language'.excludedIdentifiers ++ extra') 1 (s := .initial) (t := .initial) rfl
    have hresults : (breakdown language extra source).withoutMethods =
        (breakdown language' extra' source).withoutMethods := by
      have hfinish := congrArg finish hstates
      rwa [finish_withoutMethods, finish_withoutMethods] at hfinish
    exact ⟨congrArg (·.dc) hresults, congrArg (·.cc) hresults, congrArg (·.lineScores) hresults,
      congrArg (·.classes) hresults, congrArg (·.structures) hresults⟩

/-- A text whose first line is the head of a method in one of the two languages only. -/
def excludedSample : String := "MyError failure(int code) \x7b\nif (a) \x7b\n\x7d\n"

theorem exclusions_affect_methods_sample :
    (breakdown .cpp [] excludedSample).methods.keys = ["failure"] ∧
    (breakdown .java ["failure"] excludedSample).methods.keys = [] ∧
    (breakdown .cpp [] excludedSample).lineScores =
      (breakdown .java ["failure"] excludedSample).lineScores :=
  ⟨by decide +kernel, by decide +kernel,
    ((exclusions_affect_methods .cpp [] excludedSample).2 (by decide +kernel) .java
      ["failure"]).2.2.1⟩

/-- A label of the shape of a method head is scored only where its name is excluded. -/
example : (breakdown .cpp [] "case f(x) \x7b").dc = 0 ∧
    (breakdown .cpp ["f"] "case f(x) \x7b").dc = 2 := by decide +kernel

end Brace

end DecisionScore
