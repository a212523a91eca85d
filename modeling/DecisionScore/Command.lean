import DecisionScore.Command.Arguments
import DecisionScore.Report

/-! # The command

A run reads its configuration and the language, and then scores either the standard input or the
files its paths stand for.  It fails if one of these cannot be had, if a directory cannot be walked,
or if a file could not be scored; only in the last case has it printed its report. -/

namespace DecisionScore

/-- What a run has around it. -/
structure Surroundings where
  tree : FileTree
  stdin : ByteArray := .empty
  color : Bool := false
deriving Inhabited

/-- Why a run fails. -/
inductive RunError where
  | analysis (e : AnalysisError)
  | stdinWithoutLanguage
  | stdinNotText
  | noPaths
  | failedFiles (n : Nat)
deriving DecidableEq, Repr

/-- The wording of a failure. -/
def RunError.message : RunError → String
  | analysis e => e.message
  | stdinWithoutLanguage => "--stdin requires --lang"
  | stdinNotText => ReadFault.notText.message
  | noPaths => "no input paths (pass files, directories or --stdin)"
  | failedFiles n => toString n ++ " file(s) could not be analyzed"

/-- What a run prints.  The report on a scan shows the time it took, which is known only
afterwards. -/
inductive Output where
  | text (s : String)
  | scan (color : Bool) (bands : Bands) (report : ScanReport)
deriving DecidableEq, Inhabited

/-- The printed text, with the time in milliseconds as it is shown. -/
def Output.render (elapsed : String) : Output → String
  | text s => s
  | scan color bands report => Report.scan color bands elapsed report

/-- What a run prints, and why it fails if it does. -/
structure Printed where
  output : Output
  error : Option RunError
deriving DecidableEq, Inhabited

namespace Command

/-- A run that fails before it has printed anything. -/
def fail (e : RunError) : Printed := ⟨.text "", some e⟩

/-- The configuration of a run. -/
def configOf (s : Surroundings) (r : Request) : Except AnalysisError Config :=
  match r.config with
  | some path => Config.ofFile s.tree path
  | none => .ok (Config.ofDirectory s.tree)

/-- The language that is asked for, if one is. -/
def languageOf (r : Request) : Except AnalysisError (Option Language) :=
  match r.language with
  | some tag => (languageOfTag tag).map some
  | none => .ok none

/-- Scores the standard input. -/
def runStdin (s : Surroundings) (config : Config) (language : Language) (format : Format) :
    Printed :=
  match String.fromUTF8? s.stdin with
  | none => fail .stdinNotText
  | some source =>
    match analyze config language source with
    | .error e => fail (.analysis e)
    | .ok b =>
      match format with
      | .json => ⟨.text (Wire.render b ++ "\n"), none⟩
      | .text =>
        ⟨.text (Report.file s.color config.bands ⟨⟨"<stdin>"⟩, language, source, b⟩), none⟩

/-- The report on a scan in a form. -/
def reportOf (s : Surroundings) (bands : Bands) (format : Format) (report : ScanReport) : Output :=
  match format with
  | .json => .text (Report.scanJson report ++ "\n")
  | .text => .scan s.color bands report

/-- Scores the files that paths stand for. -/
def runPaths (s : Surroundings) (config : Config) (forced : Option Language) (format : Format)
    (paths : List Path) : Printed :=
  match discover s.tree paths forced with
  | .error e => fail (.analysis e)
  | .ok files =>
    if files.isEmpty then ⟨.text "No supported source files found.\n", none⟩
    else
      let report := scan config s.tree files forced
      ⟨reportOf s config.bands format report,
        if report.hasErrors then some (.failedFiles report.failures.length) else none⟩

/-- Does what the arguments ask for. -/
def perform (s : Surroundings) (r : Request) : Printed :=
  match configOf s r, languageOf r with
  | .error e, _ => fail (.analysis e)
  | .ok _, .error e => fail (.analysis e)
  | .ok config, .ok language =>
    let format := r.format.getD .text
    if r.stdin then
      match language with
      | none => fail .stdinWithoutLanguage
      | some language => runStdin s config language format
    else if r.paths.isEmpty then fail .noPaths
    else runPaths s config language format r.paths

/-- The name and version of the program. -/
def version : String := "decisional 0.3.0\n"

/-- How the program is used. -/
def help : String := Report.lines
  ["Decisional and cyclomatic complexity per line, method and class",
    "",
    "Usage: decisional [OPTIONS] [PATH]...",
    "",
    "Arguments:",
    "  [PATH]...  Files or directories to analyze",
    "",
    "Options:",
    "  -l, --lang <LANG>      Language tag (python, java, c++). "
      ++ "Inferred from extensions when omitted",
    "  -f, --format <FORMAT>  Output format [default: text] [possible values: text, json]",
    "      --stdin            Read source from stdin instead of files (requires --lang)",
    "      --config <FILE>    Config file (defaults to ./decisional.toml when present)",
    "  -v, --verbose          Enable debug logging on stderr",
    "  -h, --help             Print help",
    "  -V, --version          Print version"]

/-- What is said of arguments that cannot be read. -/
def misuse : String := Report.lines
  ["error: the arguments cannot be read", "", "For more information, try '--help'."]

end Command

/-- How a run ends. -/
structure Outcome where
  code : Nat
  stdout : Output
  stderr : String
deriving DecidableEq, Inhabited

namespace Command

/-- The line on a failure. -/
def errorLine (color : Bool) (e : RunError) : String :=
  Style.boldRed.paint color "error:" ++ " " ++ e.message ++ "\n"

/-- How the run of a request ends. -/
def finish (s : Surroundings) (p : Printed) : Outcome :=
  match p.error with
  | none => ⟨0, p.output, ""⟩
  | some e => ⟨1, p.output, errorLine s.color e⟩

/-- Runs the program on its arguments. -/
def run (s : Surroundings) (args : List RawText) : Outcome :=
  match readArguments args with
  | .error .usage => ⟨2, .text "", misuse⟩
  | .error .version => ⟨0, .text version, ""⟩
  | .error .help => ⟨0, .text help, ""⟩
  | .ok r => finish s (perform s r)

end Command

end DecisionScore
