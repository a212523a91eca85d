import DecisionScore.Command
import DecisionScore.Proofs.Report
import DecisionScore.Proofs.Scan

/-! # How a run ends

The causes for which a run can fail come in a fixed order: its configuration, its language, then
the standard input or the paths, then the directories to walk, and last the files.  `Runs` lists the
ways a run can go in this order, and `runs_perform` says that there are no others.  From it follow
when a run succeeds (`Runs.error_eq_none`) and that one that fails early has printed nothing
(`Runs.silent`).  What a run has printed that comes to its paths or to a text is read off `perform`
(`Finds.reported`, `Reads.printed`).  `run_ends` puts this together. -/

namespace DecisionScore

/-! ### Reports -/

/-- A printed text shows all there is in a report. -/
def Report.Shows (format : Format) (r : ScanReport) (elapsed text : String) : Prop :=
  match format with
  | .text => ∃ printed, text = lines printed ∧ ShowsScan r elapsed printed
  | .json => ∃ breakdowns, ShowsByPath r text breakdowns

/-- Paths that are texts are told apart by what is shown of them. -/
theorem Path.eq_of_text {p q : Path} {s t : String} (hp : p.raw = s) (hq : q.raw = t)
    (h : p.text = q.text) : p = q := by
  have htexts : s = t := by
    rw [text, text, hp, hq, RawText.shown_ofText, RawText.shown_ofText] at h
    exact h
  cases p
  cases q
  exact congrArg _ (hp.trans ((congrArg _ htexts).trans hq.symm))

/-! ### Configurations -/

namespace Config

theorem validate_eq_ok (c : Config) :
    c.validate = .ok () ↔ 0 < c.bands.high ∧ c.bands.medium ≤ c.bands.high := by
  unfold validate
  by_cases hhigh : c.bands.high = 0
  · simp [hhigh]
  · by_cases hmedium : c.bands.high < c.bands.medium
    · simp [hhigh, hmedium]
    · simp [hhigh, hmedium]
      omega

theorem validate_of_parse {text : String} {c : Config} (h : parse text = .ok c) :
    c.validate = .ok () := by
  unfold parse at h
  split at h
  · cases h
  · split at h
    · next hvalid =>
        cases h
        exact hvalid
    · cases h

theorem validate_of_ofFile {tree : FileTree} {path : Path} {c : Config}
    (h : ofFile tree path = .ok c) : c.validate = .ok () := by
  unfold ofFile at h
  cases hread : readSource tree path with
  | error e =>
      rw [hread] at h
      cases h
  | ok text =>
      simp only [hread, bind, Except.bind] at h
      split at h
      · next hparse =>
          cases h
          exact validate_of_parse hparse
      · cases h

theorem validate_ofDirectory (tree : FileTree) : (ofDirectory tree).validate = .ok () := by
  unfold ofDirectory
  split
  · next h => exact validate_of_ofFile h
  · rfl

end Config

namespace Command

section
variable {s : Surroundings} {r : Request}

/-- **Only sound configurations are used.** -/
theorem validate_of_configOf {config : Config} (h : configOf s r = .ok config) :
    config.validate = .ok () := by
  unfold configOf at h
  split at h
  · exact Config.validate_of_ofFile h
  · cases h
    exact Config.validate_ofDirectory s.tree

theorem exists_configOf : (∃ config, configOf s r = .ok config) ↔
    ∀ path, r.config = some path → ∃ config, Config.ofFile s.tree path = .ok config := by
  unfold configOf
  cases r.config <;> simp

/-- The language that a request forces. -/
def forced (r : Request) : Option Language := r.language.bind Language.ofTag?

theorem languageOf_eq_ok {language : Option Language} : languageOf r = .ok language ↔
    (∀ tag, r.language = some tag → ∃ language, Language.ofTag? tag = some language) ∧
      language = forced r := by
  unfold languageOf forced languageOfTag
  cases r.language with
  | none => simp [eq_comm]
  | some tag => cases htag : Language.ofTag? tag <;> simp [htag, Except.map, eq_comm]

end

/-! ### The ways a run can go -/

/-- The configuration and the language of a run. -/
structure Settled (s : Surroundings) (r : Request) (config : Config)
    (language : Option Language) : Prop where
  config : configOf s r = .ok config
  language : languageOf r = .ok language

/-- A run that scores a text from the standard input. -/
structure Reads (s : Surroundings) (r : Request) (config : Config) (language : Language)
    (source : String) : Prop extends Settled s r config (some language) where
  stdin : r.stdin = true
  text : s.stdin = source.toUTF8

/-- A run that comes to its paths. -/
structure Scans (s : Surroundings) (r : Request) (config : Config) (language : Option Language) :
    Prop extends Settled s r config language where
  stdin : r.stdin = false
  paths : r.paths ≠ []

/-- The report on the text of the standard input. -/
def stdinReport (s : Surroundings) (bands : Bands) (language : Language) (source : String)
    (b : Breakdown) : Format → String
  | .json => Wire.render b ++ "\n"
  | .text => Report.file s.color bands ⟨⟨"<stdin>"⟩, language, source, b⟩

/-- A run that has found the files its paths stand for. -/
structure Finds (s : Surroundings) (r : Request) (config : Config) (chosen : Option Language)
    (files : List Path) : Prop extends Scans s r config chosen where
  found : discover s.tree r.paths chosen = .ok files

/-- How a run can go. -/
inductive Runs (s : Surroundings) (r : Request) : Printed → Prop where
  | badConfig {e : AnalysisError} (hconfig : configOf s r = .error e) :
      Runs s r (fail (.analysis e))
  | badLanguage {config : Config} {e : AnalysisError} (hconfig : configOf s r = .ok config)
      (hlanguage : languageOf r = .error e) : Runs s r (fail (.analysis e))
  | noLanguage {config : Config} (h : Settled s r config none) (hstdin : r.stdin = true) :
      Runs s r (fail .stdinWithoutLanguage)
  | notText {config : Config} {language : Language} (h : Settled s r config (some language))
      (hstdin : r.stdin = true) (htext : ¬ ∃ source : String, s.stdin = source.toUTF8) :
      Runs s r (fail .stdinNotText)
  | scored {config : Config} {language : Language} {source : String} {b : Breakdown}
      (h : Reads s r config language source) (hb : analyze config language source = .ok b) :
      Runs s r
        ⟨.text (stdinReport s config.bands language source b (r.format.getD .text)), none⟩
  | noPaths {config : Config} {language : Option Language} (h : Settled s r config language)
      (hstdin : r.stdin = false) (hpaths : r.paths = []) : Runs s r (fail .noPaths)
  | badWalk {config : Config} {language : Option Language} {e : AnalysisError}
      (h : Scans s r config language) (hwalk : discover s.tree r.paths language = .error e) :
      Runs s r (fail (.analysis e))
  | nothingFound {config : Config} {language : Option Language}
      (h : Finds s r config language []) :
      Runs s r ⟨.text "No supported source files found.\n", none⟩
  | scanned {config : Config} {language : Option Language} {files : List Path}
      {report : ScanReport} (h : Finds s r config language files) (hfiles : files ≠ [])
      (hreport : report = scan config s.tree files language) :
      Runs s r ⟨reportOf s config.bands (r.format.getD .text) report,
        if report.hasErrors then some (.failedFiles report.failures.length) else none⟩

section
variable {s : Surroundings} {r : Request}

theorem exists_runStdin (config : Config) (language : Language) (format : Format) {source : String}
    (h : s.stdin = source.toUTF8) : ∃ b, analyze config language source = .ok b ∧
      runStdin s config language format =
        ⟨.text (stdinReport s config.bands language source b format), none⟩ := by
  obtain ⟨b, hb⟩ := exists_analyze config language source
  have htext : String.fromUTF8? s.stdin = some source := fromUTF8?_eq_some.mpr h
  refine ⟨b, hb, ?_⟩
  simp only [runStdin, htext, hb]
  cases format <;> rfl

theorem runs_stdin {config : Config} {language : Language} (h : Settled s r config (some language))
    (hstdin : r.stdin = true) : Runs s r (runStdin s config language (r.format.getD .text)) := by
  by_cases htext : ∃ source : String, s.stdin = source.toUTF8
  · obtain ⟨source, hsource⟩ := htext
    obtain ⟨b, hb, hrun⟩ := exists_runStdin config language (r.format.getD .text) hsource
    rw [hrun]
    exact .scored ⟨h, hstdin, hsource⟩ hb
  · have hnone : String.fromUTF8? s.stdin = none := by
      rw [Option.eq_none_iff_forall_ne_some]
      exact fun source hsource => htext ⟨source, fromUTF8?_eq_some.mp hsource⟩
    unfold runStdin
    rw [hnone]
    exact .notText h hstdin htext

theorem runs_paths {config : Config} {language : Option Language} (h : Scans s r config language) :
    Runs s r (runPaths s config language (r.format.getD .text) r.paths) := by
  unfold runPaths
  cases hfound : discover s.tree r.paths language with
  | error e => exact .badWalk h hfound
  | ok files =>
      cases files with
      | nil => exact .nothingFound ⟨h, hfound⟩
      | cons p files => exact .scanned ⟨h, hfound⟩ (List.cons_ne_nil p files) rfl

end

/-- **There are no other ways.** -/
theorem runs_perform (s : Surroundings) (r : Request) : Runs s r (perform s r) := by
  unfold perform
  cases hconfig : configOf s r with
  | error e => exact .badConfig hconfig
  | ok config =>
      cases hlanguage : languageOf r with
      | error e => exact .badLanguage hconfig hlanguage
      | ok language =>
          have hsettled : Settled s r config language := ⟨hconfig, hlanguage⟩
          cases hstdin : r.stdin with
          | true =>
              cases language with
              | none => exact .noLanguage hsettled hstdin
              | some language => exact runs_stdin hsettled hstdin
          | false =>
              by_cases hpaths : r.paths = []
              · simp only [hpaths, List.isEmpty_nil, if_true]
                exact .noPaths hsettled hstdin hpaths
              · simp only [List.isEmpty_iff, hpaths, if_false]
                exact runs_paths ⟨hsettled, hstdin, hpaths⟩

/-! ### When a run succeeds -/

/-- When a run succeeds: the configuration and the language that are asked for can be had, and
there is a text on the standard input, or there are paths, the files they stand for can be found,
and every one of these can be scored. -/
def Succeeds (s : Surroundings) (r : Request) : Prop :=
  (∀ path, r.config = some path → ∃ config, Config.ofFile s.tree path = .ok config) ∧
  (∀ tag, r.language = some tag → ∃ language, Language.ofTag? tag = some language) ∧
  (r.stdin = true ∧ r.language ≠ none ∧ (∃ source : String, s.stdin = source.toUTF8) ∨
    r.stdin = false ∧ r.paths ≠ [] ∧
      ∃ files, discover s.tree r.paths (forced r) = .ok files ∧
        ∀ config, configOf s r = .ok config →
          ∀ p ∈ files, ∃ f, analyzeFile config s.tree (forced r) p = .ok f)

section
variable {s : Surroundings} {r : Request} {config config' : Config}
  {language language' : Option Language}

theorem exists_settled : (∃ config language, Settled s r config language) ↔
    (∀ path, r.config = some path → ∃ config, Config.ofFile s.tree path = .ok config) ∧
    ∀ tag, r.language = some tag → ∃ language, Language.ofTag? tag = some language := by
  rw [← exists_configOf]
  constructor
  · rintro ⟨config, language, hconfig, hlanguage⟩
    exact ⟨⟨config, hconfig⟩, (languageOf_eq_ok.mp hlanguage).1⟩
  · rintro ⟨⟨config, hconfig⟩, htags⟩
    exact ⟨config, forced r, hconfig, languageOf_eq_ok.mpr ⟨htags, rfl⟩⟩

theorem Settled.forced_eq (h : Settled s r config language) : forced r = language :=
  (languageOf_eq_ok.mp h.language).2.symm

theorem Settled.config_eq (h : Settled s r config language) (h' : configOf s r = .ok config') :
    config' = config := Except.ok.inj (h'.symm.trans h.config)

theorem Settled.language_eq_none (h : Settled s r config none) : r.language = none := by
  obtain ⟨htags, hforced⟩ := languageOf_eq_ok.mp h.language
  cases hlanguage : r.language with
  | none => rfl
  | some tag =>
      obtain ⟨found, hfound⟩ := htags tag hlanguage
      simp [forced, hlanguage, hfound] at hforced

/-- Files can all be scored if and only if the report on them has no errors. -/
theorem hasErrors_scan (config : Config) (tree : FileTree) (files : List Path)
    (language : Option Language) : (scan config tree files language).hasErrors = false ↔
      ∀ p ∈ files, ∃ f, analyzeFile config tree language p = .ok f := by
  have herrors := (accounts_scan config tree language files).hasErrors_iff
  have hok : ∀ p, (¬ ∃ e, analyzeFile config tree language p = .error e) ↔
      ∃ f, analyzeFile config tree language p = .ok f := by
    intro p
    cases analyzeFile config tree language p <;> simp
  rw [← Bool.not_eq_true, herrors]
  simp only [not_exists, not_and, ← hok]

theorem Runs.error_eq_none {p : Printed} (h : Runs s r p) : p.error = none ↔ Succeeds s r := by
  unfold Succeeds
  rw [← and_assoc, ← exists_settled]
  cases h with
  | badConfig hconfig =>
      refine iff_of_false (by simp [fail]) ?_
      rintro ⟨⟨config, language, hsettled⟩, -⟩
      simp [hsettled.config] at hconfig
  | badLanguage hconfig hlanguage =>
      refine iff_of_false (by simp [fail]) ?_
      rintro ⟨⟨config, language, hsettled⟩, -⟩
      simp [hsettled.language] at hlanguage
  | noLanguage hsettled hstdin =>
      refine iff_of_false (by simp [fail]) ?_
      rintro ⟨-, ⟨-, hlanguage, -⟩ | ⟨hno, -⟩⟩
      · exact hlanguage hsettled.language_eq_none
      · simp [hstdin] at hno
  | notText hsettled hstdin htext =>
      refine iff_of_false (by simp [fail]) ?_
      rintro ⟨-, ⟨-, -, hsome⟩ | ⟨hno, -⟩⟩
      · exact htext hsome
      · simp [hstdin] at hno
  | scored hreads hb =>
      refine iff_of_true rfl ⟨⟨_, _, hreads.toSettled⟩, .inl ⟨hreads.stdin, ?_, _, hreads.text⟩⟩
      intro hnone
      have hforced := hreads.forced_eq
      simp [forced, hnone] at hforced
  | noPaths hsettled hstdin hpaths =>
      refine iff_of_false (by simp [fail]) ?_
      rintro ⟨-, ⟨hyes, -⟩ | ⟨-, hsome, -⟩⟩
      · simp [hstdin] at hyes
      · exact hsome hpaths
  | badWalk hscans hwalk =>
      refine iff_of_false (by simp [fail]) ?_
      rintro ⟨-, ⟨hyes, -⟩ | ⟨-, -, files, hfound, -⟩⟩
      · simp [hscans.stdin] at hyes
      · rw [hscans.forced_eq, hwalk] at hfound
        cases hfound
  | nothingFound hfinds =>
      refine iff_of_true rfl ⟨⟨_, _, hfinds.toSettled⟩, .inr ⟨hfinds.stdin, hfinds.paths, [], ?_⟩⟩
      rw [hfinds.forced_eq]
      exact ⟨hfinds.found, fun _ _ => List.forall_mem_nil _⟩
  | @scanned config language files report hfinds hfiles hreport =>
      have hnone : (if report.hasErrors then some (RunError.failedFiles report.failures.length)
          else none) = none ↔ report.hasErrors = false := by
        cases report.hasErrors <;> simp
      rw [hnone, hreport, hasErrors_scan, hfinds.forced_eq]
      constructor
      · intro hall
        refine ⟨⟨_, _, hfinds.toSettled⟩,
          .inr ⟨hfinds.stdin, hfinds.paths, files, hfinds.found, ?_⟩⟩
        intro config' hconfig
        rwa [hfinds.config_eq hconfig]
      · rintro ⟨-, ⟨hyes, -⟩ | ⟨-, -, files', hfound, hall⟩⟩
        · simp [hfinds.stdin] at hyes
        · obtain rfl : files' = files := Except.ok.inj (hfound.symm.trans hfinds.found)
          exact hall config hfinds.config

/-! ### What a run has printed -/

/-- A run that fails before it has found its files has printed nothing. -/
theorem Runs.silent {p : Printed} (h : Runs s r p) (herror : p.error ≠ none)
    (hfinds : ∀ config language files, ¬ Finds s r config language files) :
    p.output = .text "" := by
  cases h with
  | badConfig => rfl
  | badLanguage => rfl
  | noLanguage => rfl
  | notText => rfl
  | noPaths => rfl
  | badWalk => rfl
  | scored => exact absurd rfl herror
  | nothingFound h => exact absurd h (hfinds _ _ _)
  | scanned h => exact absurd h (hfinds _ _ _)

theorem Scans.perform_eq (h : Scans s r config language) :
    perform s r = runPaths s config language (r.format.getD .text) r.paths := by
  have hpaths : r.paths.isEmpty = false := by
    rw [List.isEmpty_eq_false_iff]
    exact h.paths
  simp [perform, h.config, h.language, h.stdin, hpaths]

/-- A run that cannot walk a directory says so and prints nothing. -/
theorem Scans.perform_eq_fail (h : Scans s r config language) {e : AnalysisError}
    (hwalk : discover s.tree r.paths language = .error e) :
    perform s r = fail (.analysis e) := by
  rw [h.perform_eq, runPaths, hwalk]

/-- A run that has found its files and fails has printed its whole report. -/
theorem Finds.reported {files : List Path} (h : Finds s r config language files)
    (herror : (perform s r).error ≠ none) :
    (perform s r).output = reportOf s config.bands (r.format.getD .text)
        (scan config s.tree files language) ∧
      (scan config s.tree files language).hasErrors = true := by
  rw [h.perform_eq, runPaths, h.found] at herror ⊢
  cases files with
  | nil => exact absurd rfl herror
  | cons p files =>
      refine ⟨rfl, ?_⟩
      by_contra hno
      exact herror (if_neg hno)

/-- A run that has a text on the standard input has printed the report on it. -/
theorem Reads.printed {language : Language} {source : String}
    (h : Reads s r config language source) :
    ∃ b, analyze config language source = .ok b ∧ (perform s r).output =
      .text (stdinReport s config.bands language source b (r.format.getD .text)) := by
  obtain ⟨b, hb, hrun⟩ := exists_runStdin config language (r.format.getD .text) h.text
  refine ⟨b, hb, ?_⟩
  simp only [perform, h.config, h.language, h.stdin, if_true, hrun]

/-- A report shows all there is in it. -/
theorem shows_reportOf (s : Surroundings) (bands : Bands) (format : Format) (report : ScanReport)
    (elapsed : String) :
    Report.Shows format report elapsed ((reportOf s bands format report).render elapsed) := by
  cases format with
  | text => exact Report.exists_showsScan s.color bands elapsed report
  | json => exact ⟨Report.byPath report, Report.showsByPath_scanJson report⟩

/-- Files that were found and whose paths are texts are not shown alike. -/
theorem Finds.eq_of_text {files : List Path} (h : Finds s r config language files)
    (htexts : ∀ p ∈ files, ∃ name : String, p.raw = name) :
    ∀ f ∈ (scan config s.tree files language).files,
      ∀ g ∈ (scan config s.tree files language).files, g.path.text = f.path.text → g = f := by
  have haccounts := accounts_scan config s.tree language files
  have hne : ∀ {p q : Path}, p.order q = .lt → p ≠ q := by
    rintro p _ hlt rfl
    have hself : p.order p = .eq := Std.ReflCmp.compare_self
    rw [hself] at hlt
    cases hlt
  have hpaths : ((scan config s.tree files language).files.map (·.path)).Nodup := by
    obtain ⟨-, found, rfl, -⟩ := discover_eq_ok h.found
    rw [haccounts.files]
    exact ((Path.pairwise_sorted found).imp hne).filter _
  have hfound : ∀ f ∈ (scan config s.tree files language).files, f.path ∈ files := by
    intro f hf
    have hmem := List.mem_map_of_mem (f := (·.path)) hf
    rw [haccounts.files] at hmem
    exact List.mem_of_mem_filter hmem
  intro f hf g hg htext
  obtain ⟨name, hname⟩ := htexts f.path (hfound f hf)
  obtain ⟨name', hname'⟩ := htexts g.path (hfound g hg)
  exact List.inj_on_of_nodup_map hpaths hg hf (Path.eq_of_text hname' hname htext)

theorem perform_of_stdin (h : r.stdin = true) (paths : List Path) :
    perform s { r with paths := paths } = perform s r := by
  simp only [perform, h, if_true]
  rfl

end

/-! ### How a run ends -/

/-- How the run of a request ends. -/
structure Ends (s : Surroundings) (r : Request) (o : Outcome) : Prop where
  code : o.code = 0 ∨ o.code = 1
  code_eq_zero : o.code = 0 ↔ Succeeds s r
  /-- Unless it has found its files, a run that fails prints nothing. -/
  silent : o.code = 1 → (∀ config language files, ¬ Finds s r config language files) →
    o.stdout = .text ""
  /-- A run does not find its files if a directory cannot be listed, and then says so. -/
  unwalked : ∀ config language e, Scans s r config language →
    discover s.tree r.paths language = .error e →
    o = ⟨1, .text "", errorLine s.color (.analysis e)⟩ ∧
    ∃ path ∈ r.paths, ∃ dir, s.tree.HasBelow Entry.isUnlistable path dir ∧ e = walkError dir
  /-- Where only the files can have failed, all of the scan is reported. -/
  reported : ∀ config language files report, Finds s r config language files →
    report = scan config s.tree files language → o.code = 1 →
    report.hasErrors = true ∧ report.Accounts files (analyzeFile config s.tree language) ∧
    o.stdout = reportOf s config.bands (r.format.getD .text) report ∧
    (∀ elapsed, Report.Shows (r.format.getD .text) report elapsed (o.stdout.render elapsed)) ∧
    ((∀ p ∈ files, ∃ name : String, p.raw = name) →
      ∀ f ∈ report.files, ∀ g ∈ report.files, g.path.text = f.path.text → g = f)
  /-- The standard input is scored as a file with the same text is. -/
  read : ∀ config language source, Reads s r config language source → ∃ b,
    o.stdout = .text (stdinReport s config.bands language source b (r.format.getD .text)) ∧
    ∀ tree path, tree.HasText path source →
      analyzeFile config tree (some language) path = .ok ⟨path, language, source, b⟩
  /-- With the standard input the paths do not matter. -/
  ignored : r.stdin = true → ∀ paths, finish s (perform s { r with paths := paths }) = o
  /-- A wrong file in the working directory is as good as none. -/
  default : r.config = none → ∀ e, Config.ofFile s.tree ⟨Config.fileName⟩ = .error e →
    configOf s r = .ok {}
  /-- Only configurations that pass their check are used. -/
  valid : ∀ config, configOf s r = .ok config → config.validate = .ok () ∧
    0 < config.bands.high ∧ config.bands.medium ≤ config.bands.high

section
variable (s : Surroundings)

theorem code_finish (p : Printed) :
    (finish s p).code = 0 ∧ p.error = none ∨ (finish s p).code = 1 ∧ p.error ≠ none := by
  unfold finish
  cases p.error with
  | none => exact .inl ⟨rfl, rfl⟩
  | some e => exact .inr ⟨rfl, Option.some_ne_none e⟩

theorem code_finish_eq_zero (p : Printed) : (finish s p).code = 0 ↔ p.error = none := by
  obtain ⟨hcode, herror⟩ | ⟨hcode, herror⟩ := code_finish s p
  · exact iff_of_true hcode herror
  · exact iff_of_false (by omega) herror

theorem error_of_code {p : Printed} (h : (finish s p).code = 1) : p.error ≠ none := by
  intro hnone
  have hcode := (code_finish_eq_zero s p).mpr hnone
  omega

theorem stdout_finish (p : Printed) : (finish s p).stdout = p.output := by
  unfold finish
  cases p.error <;> rfl

theorem ends_perform (r : Request) : Ends s r (finish s (perform s r)) where
  code := (code_finish s _).imp And.left And.left
  code_eq_zero := (code_finish_eq_zero s _).trans (runs_perform s r).error_eq_none
  silent hcode hfinds := by
    rw [stdout_finish]
    exact (runs_perform s r).silent (error_of_code s hcode) hfinds
  unwalked config language e hscans hwalk := by
    rw [hscans.perform_eq_fail hwalk]
    exact ⟨rfl, discover_eq_error hwalk⟩
  reported config language files report hfinds hreport hcode := by
    obtain ⟨houtput, hfails⟩ := hfinds.reported (error_of_code s hcode)
    rw [stdout_finish, houtput, hreport]
    exact ⟨hfails, accounts_scan config s.tree language files, rfl, shows_reportOf s _ _ _,
      hfinds.eq_of_text⟩
  read config language source hreads := by
    obtain ⟨b, hb, houtput⟩ := hreads.printed
    rw [stdout_finish, houtput]
    exact ⟨b, rfl, fun tree path htext => analyzeFile_of_hasText config tree _ rfl htext hb⟩
  ignored hstdin paths := by rw [perform_of_stdin hstdin]
  default hconfig e he := by simp [configOf, hconfig, Config.ofDirectory, he]
  valid config hconfig := by
    have hvalid := validate_of_configOf hconfig
    exact ⟨hvalid, (Config.validate_eq_ok config).mp hvalid⟩

end

end Command

end DecisionScore
