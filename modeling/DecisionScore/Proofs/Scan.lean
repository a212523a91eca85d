import DecisionScore.Proofs.Discovery

/-! # Scans of many files

A file fails for one of two reasons, and for no other: it has no language, or it holds no text
(`analyzeFile_cases`).  A scan treats every path by itself and keeps what came of it
(`ScanReport.Accounts`), so that nothing is lost and nothing is made up.

Since discovery takes no file below a directory that has no language, a path without one is found
in a scan of what was discovered only if it was asked for. -/

namespace DecisionScore

/-! ### One file -/

/-- What is read at a path is a text. -/
def FileTree.HasText (tree : FileTree) (path : Path) (source : String) : Prop :=
  tree.contentAt path = .ok source.toUTF8

theorem fromUTF8?_eq_some {content : ByteArray} {source : String} :
    String.fromUTF8? content = some source ↔ content = source.toUTF8 := by
  unfold String.fromUTF8?
  constructor
  · intro h
    split at h
    · cases h
      rfl
    · cases h
  · rintro rfl
    exact dif_pos source.isValidUTF8

theorem FileTree.read_eq_ok {tree : FileTree} {path : Path} {source : String} :
    tree.read path = .ok source ↔ tree.HasText path source := by
  unfold read HasText
  cases tree.contentAt path with
  | error fault => simp [bind, Except.bind]
  | ok content =>
      rw [Except.ok.injEq, ← fromUTF8?_eq_some]
      simp only [bind, Except.bind]
      cases String.fromUTF8? content <;> simp

/-- Every text can be scored in every language. -/
theorem exists_analyze (config : Config) (language : Language) (source : String) :
    ∃ b, analyze config language source = .ok b := by
  cases language <;> exact ⟨_, rfl⟩

/-- The language of a file: the given one, or else that of its extension. -/
def languageFor? (forced : Option Language) (path : Path) : Option Language :=
  forced.or (Language.ofExtension? path.extension)

theorem languageFor?_eq_none {forced : Option Language} {path : Path} :
    languageFor? forced path = none ↔
      forced = none ∧ Language.ofExtension? path.extension = none := Option.or_eq_none_iff

section
variable (config : Config) (tree : FileTree) (forced : Option Language)

/-- **What can come of a file.** -/
theorem analyzeFile_cases (path : Path) :
    (languageFor? forced path = none ∧
      ∃ what, analyzeFile config tree forced path = .error (.unsupportedLanguage what)) ∨
    (languageFor? forced path ≠ none ∧ (¬ ∃ source, tree.HasText path source) ∧
      ∃ fault, analyzeFile config tree forced path = .error (.unreadable fault path.text)) ∨
    ∃ language source b, languageFor? forced path = some language ∧ tree.HasText path source ∧
      analyze config language source = .ok b ∧
      analyzeFile config tree forced path = .ok ⟨path, language, source, b⟩ := by
  cases hlanguage : languageFor? forced path with
  | none =>
      obtain ⟨rfl, hext⟩ := languageFor?_eq_none.mp hlanguage
      let quoted := String.ofList (Text.quote path.extension.toList)
      refine .inl ⟨rfl, path.text ++ " (" ++ quoted ++ ")", ?_⟩
      unfold analyzeFile languageOfPath
      rw [hext]
      rfl
  | some language =>
      have hfile : analyzeFile config tree forced path = (do
          let source ← readSource tree path
          let breakdown ← analyze config language source
          .ok ⟨path, language, source, breakdown⟩) := by
        unfold analyzeFile languageOfPath
        cases forced with
        | some forced =>
            cases hlanguage
            rfl
        | none =>
            rw [show Language.ofExtension? path.extension = some language from hlanguage]
            rfl
      rw [hfile]
      unfold readSource
      cases hread : tree.read path with
      | error fault =>
          refine .inr (.inl ⟨Option.some_ne_none _, ?_, fault, rfl⟩)
          rintro ⟨source, hsource⟩
          rw [FileTree.read_eq_ok.mpr hsource] at hread
          cases hread
      | ok source =>
          obtain ⟨b, hb⟩ := exists_analyze config language source
          refine .inr (.inr ⟨language, source, b, rfl, FileTree.read_eq_ok.mp hread, hb, ?_⟩)
          show (analyze config language source >>= _) = _
          rw [hb]
          rfl

theorem unsupported_iff (path : Path) :
    (∃ what, analyzeFile config tree forced path = .error (.unsupportedLanguage what)) ↔
      forced = none ∧ Language.ofExtension? path.extension = none := by
  rw [← languageFor?_eq_none]
  rcases analyzeFile_cases config tree forced path with
    ⟨hlanguage, what, h⟩ | ⟨hlanguage, -, fault, h⟩ | ⟨language, source, b, hlanguage, -, -, h⟩
  · exact iff_of_true ⟨what, h⟩ hlanguage
  · exact iff_of_false (by simp [h]) hlanguage
  · exact iff_of_false (by simp [h]) (by simp [hlanguage])

theorem unreadable_iff (path : Path) :
    (∃ fault place, analyzeFile config tree forced path = .error (.unreadable fault place)) ↔
      ¬ (forced = none ∧ Language.ofExtension? path.extension = none) ∧
      ¬ ∃ source, tree.HasText path source := by
  rw [← languageFor?_eq_none]
  rcases analyzeFile_cases config tree forced path with
    ⟨hlanguage, what, h⟩ | ⟨hlanguage, htext, fault, h⟩ |
    ⟨language, source, b, -, hsource, -, h⟩
  · exact iff_of_false (by simp [h]) fun hnot => hnot.1 hlanguage
  · exact iff_of_true ⟨fault, path.text, h⟩ ⟨hlanguage, htext⟩
  · exact iff_of_false (by simp [h]) fun hnot => hnot.2 ⟨source, hsource⟩

/-- A file is scored if and only if it has a language and holds a text. -/
theorem isOk_analyzeFile (path : Path) : (analyzeFile config tree forced path).isOk = true ↔
    languageFor? forced path ≠ none ∧ ∃ source, tree.HasText path source := by
  rcases analyzeFile_cases config tree forced path with
    ⟨hlanguage, what, h⟩ | ⟨-, htext, fault, h⟩ | ⟨language, source, b, hlanguage, htext, -, h⟩
  · exact iff_of_false (by simp [h, Except.isOk, Except.toBool]) fun hnot => hnot.1 hlanguage
  · exact iff_of_false (by simp [h, Except.isOk, Except.toBool]) fun hnot => htext hnot.2
  · exact iff_of_true (by simp [h, Except.isOk, Except.toBool])
      ⟨by simp [hlanguage], source, htext⟩

/-- There is no other error. -/
theorem error_cases {path : Path} {e : AnalysisError}
    (h : analyzeFile config tree forced path = .error e) :
    (∃ what, e = .unsupportedLanguage what) ∨ ∃ fault place, e = .unreadable fault place := by
  rcases analyzeFile_cases config tree forced path with
    ⟨-, what, h'⟩ | ⟨-, -, fault, h'⟩ | ⟨language, source, b, -, -, -, h'⟩
  · exact .inl ⟨what, by simpa [h] using h'⟩
  · exact .inr ⟨fault, path.text, by simpa [h] using h'⟩
  · simp [h] at h'

/-- A file that has a language and holds a text is scored as that text. -/
theorem analyzeFile_of_hasText {path : Path} {language : Language} {source : String}
    {b : Breakdown} (hlanguage : languageFor? forced path = some language)
    (hsource : tree.HasText path source) (hb : analyze config language source = .ok b) :
    analyzeFile config tree forced path = .ok ⟨path, language, source, b⟩ := by
  rcases analyzeFile_cases config tree forced path with
    ⟨hnone, -⟩ | ⟨-, htext, -⟩ | ⟨language', source', b', hlanguage', hsource', hb', h⟩
  · simp [hlanguage] at hnone
  · exact absurd ⟨source, hsource⟩ htext
  · obtain rfl : language = language' := Option.some.inj (hlanguage.symm.trans hlanguage')
    obtain rfl : source = source' := Except.ok.inj
      ((FileTree.read_eq_ok.mpr hsource).symm.trans (FileTree.read_eq_ok.mpr hsource'))
    obtain rfl : b = b' := Except.ok.inj (hb.symm.trans hb')
    exact h

/-- A Python text that has no reading is scored all the same. -/
theorem analyzeFile_of_parse?_eq_none {path : Path} {source : String}
    (hlanguage : languageFor? forced path = some .python) (hsource : tree.HasText path source)
    (hparse : Python.parse? source = none) :
    analyzeFile config tree forced path = .ok ⟨path, .python, source, .baseline⟩ := by
  have hbreakdown : Python.breakdown source = .baseline := by
    unfold Python.breakdown
    rw [hparse]
  rw [analyzeFile_of_hasText config tree forced hlanguage hsource rfl, hbreakdown]

theorem path_of_analyzeFile {path : Path} {f : FileAnalysis}
    (h : analyzeFile config tree forced path = .ok f) : f.path = path := by
  rcases analyzeFile_cases config tree forced path with
    ⟨-, what, h'⟩ | ⟨-, -, fault, h'⟩ | ⟨language, source, b, -, -, -, h'⟩
  · simp [h] at h'
  · simp [h] at h'
  · obtain rfl := Except.ok.inj (h.symm.trans h')
    rfl

end

/-! ### Many files -/

/-- A report accounts for paths: every path is in one of its two lists, in order and as often as it
is given, with what comes of the path alone. -/
structure ScanReport.Accounts (report : ScanReport) (paths : List Path)
    (result : Path → Except AnalysisError FileAnalysis) : Prop where
  files : report.files.map (·.path) = paths.filter fun p => (result p).isOk
  failures : report.failures.map (·.path) = paths.filter fun p => !(result p).isOk
  result_file : ∀ f ∈ report.files, result f.path = .ok f
  result_failure : ∀ f ∈ report.failures, ∃ e, result f.path = .error e ∧ f.message = e.message

namespace ScanReport.Accounts

variable {report : ScanReport} {paths : List Path}
  {result : Path → Except AnalysisError FileAnalysis}

/-- **One more file.** -/
theorem file (h : report.Accounts paths result) {f : FileAnalysis} (hf : result f.path = .ok f) :
    Accounts ⟨f :: report.files, report.failures⟩ (f.path :: paths) result where
  files := by rw [List.map_cons, h.files, List.filter_cons_of_pos (by rw [hf]; rfl)]
  failures := by rw [h.failures, List.filter_cons_of_neg (by rw [hf]; exact Bool.false_ne_true)]
  result_file := List.forall_mem_cons.mpr ⟨hf, h.result_file⟩
  result_failure := h.result_failure

/-- **One more failure.** -/
theorem failure (h : report.Accounts paths result) {p : Path} {e : AnalysisError}
    (he : result p = .error e) :
    Accounts ⟨report.files, ⟨p, e.message⟩ :: report.failures⟩ (p :: paths) result where
  files := by rw [h.files, List.filter_cons_of_neg (by rw [he]; exact Bool.false_ne_true)]
  failures := by rw [List.map_cons, h.failures, List.filter_cons_of_pos (by rw [he]; rfl)]
  result_file := h.result_file
  result_failure := List.forall_mem_cons.mpr ⟨⟨e, he, rfl⟩, h.result_failure⟩

theorem hasErrors_iff (h : report.Accounts paths result) :
    report.hasErrors = true ↔ ∃ p ∈ paths, ∃ e, result p = .error e := by
  have hempty : report.failures = [] ↔ ∀ p ∈ paths, (result p).isOk = true := by
    rw [← List.map_eq_nil_iff, h.failures]
    simp
  have hfails : ∀ p, ¬ (result p).isOk = true ↔ ∃ e, result p = .error e := by
    intro p
    cases result p <;> simp [Except.isOk, Except.toBool]
  unfold hasErrors
  rw [Bool.not_eq_true', ← Bool.not_eq_true, List.isEmpty_iff, hempty]
  simp only [not_forall, exists_prop, hfails]

end ScanReport.Accounts

theorem ScanReport.totalDc_eq (report : ScanReport) :
    report.totalDc = (report.files.map (·.breakdown.dc)).sum := by
  unfold totalDc
  rw [List.sum, List.foldr_map]

section
variable (config : Config) (tree : FileTree) (forced : Option Language)

section
variable {config tree forced}

theorem scan_cons_of_ok {p : Path} {f : FileAnalysis}
    (h : analyzeFile config tree forced p = .ok f) (paths : List Path) :
    scan config tree (p :: paths) forced =
      ⟨f :: (scan config tree paths forced).files, (scan config tree paths forced).failures⟩ := by
  have houtcome : outcome config tree forced p = .inl f := by
    unfold outcome
    rw [h]
  unfold scan
  rw [List.map_cons, houtcome]
  rfl

theorem scan_cons_of_error {p : Path} {e : AnalysisError}
    (h : analyzeFile config tree forced p = .error e) (paths : List Path) :
    scan config tree (p :: paths) forced = ⟨(scan config tree paths forced).files,
      ⟨p, e.message⟩ :: (scan config tree paths forced).failures⟩ := by
  have houtcome : outcome config tree forced p = .inr ⟨p, e.message⟩ := by
    unfold outcome
    rw [h]
  unfold scan
  rw [List.map_cons, houtcome]
  rfl

end

/-- **A scan of many files.** -/
theorem accounts_scan (paths : List Path) :
    (scan config tree paths forced).Accounts paths (analyzeFile config tree forced) := by
  induction paths with
  | nil => exact ⟨rfl, rfl, by simp [scan], by simp [scan]⟩
  | cons p paths ih =>
      cases hresult : analyzeFile config tree forced p with
      | ok f =>
          obtain rfl := path_of_analyzeFile config tree forced hresult
          rw [scan_cons_of_ok hresult]
          exact ih.file hresult
      | error e =>
          rw [scan_cons_of_error hresult]
          exact ih.failure hresult

end

/-! ### What was discovered -/

/-- The messages of the errors start with different letters. -/
def AnalysisError.initial : AnalysisError → Char
  | unsupportedLanguage _ => 'U'
  | malformedSource _ => 'M'
  | unreadable _ _ => 'I'
  | config _ => 'C'
  | internal _ => 'A'

theorem AnalysisError.head?_message (e : AnalysisError) :
    e.message.toList.head? = some e.initial := by
  unfold message initial
  cases e <;> simp

/-- The message of an error tells that a language is not supported. -/
theorem AnalysisError.eq_of_message {e : AnalysisError} {what : String}
    (h : e.message = (unsupportedLanguage what).message) : e = .unsupportedLanguage what := by
  have hinitial : e.initial = 'U' := by
    have hhead := e.head?_message
    rw [h, head?_message] at hhead
    exact (Option.some.inj hhead).symm
  cases e with
  | unsupportedLanguage what' => exact congrArg _ ((String.append_right_inj _).mp h)
  | malformedSource line => simp [initial] at hinitial
  | unreadable fault path => simp [initial] at hinitial
  | config detail => simp [initial] at hinitial
  | internal detail => simp [initial] at hinitial

/-- A path without a language that was discovered is one that was given. -/
theorem mem_of_discover {tree : FileTree} {paths found : List Path} {forced : Option Language}
    {p : Path} (hfound : discover tree paths forced = .ok found) (h : p ∈ found)
    (hlanguage : languageFor? forced p = none) : p ∈ paths ∧ tree.isDirectory p = false := by
  obtain ⟨-, files, rfl, hmem⟩ := discover_eq_ok hfound
  obtain ⟨path, hpath, hp⟩ := (hmem p).mp (Path.mem_of_mem_sorted h)
  rcases hp with ⟨hfile, rfl⟩ | ⟨-, hsource⟩
  · exact ⟨hpath, hfile⟩
  · obtain ⟨hforced, hext⟩ := languageFor?_eq_none.mp hlanguage
    obtain ⟨language, hlanguage⟩ := (isSource_iff forced p).mp hsource hforced
    simp [hext] at hlanguage

end DecisionScore
