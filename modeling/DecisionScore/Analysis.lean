import DecisionScore.Brace.Scan
import DecisionScore.Config
import DecisionScore.FileTree
import DecisionScore.Python
import DecisionScore.Text.Quoted

/-! # Analysis of texts and files

A text is scored in the way of its language.  A file takes its language from its extension unless
one is given, and files are found below directories.  A scan scores many files and keeps what went
wrong with the others. -/

namespace DecisionScore

/-- The breakdown of a text by its tree.  Only a language with a grammar has one. -/
def treeBreakdown (language : Language) (source : String) : Except AnalysisError Breakdown :=
  if language.hasGrammar then .ok (Python.breakdown source)
  else .error (.internal ("no grammar available for " ++ language.tag))

/-- The language of a tag. -/
def languageOfTag (tag : String) : Except AnalysisError Language :=
  match Language.ofTag? tag with
  | some language => .ok language
  | none => .error (.unsupportedLanguage tag)

/-- The language of a file by its extension. -/
def languageOfPath (path : Path) : Except AnalysisError Language :=
  match Language.ofExtension? path.extension with
  | some language => .ok language
  | none =>
    let extension := String.ofList (Text.quote path.extension.toList)
    .error (.unsupportedLanguage (path.text ++ " (" ++ extension ++ ")"))

/-- The breakdown of a text in a language. -/
def analyze (config : Config) (language : Language) (source : String) :
    Except AnalysisError Breakdown :=
  match language.frontend with
  | .tree => treeBreakdown language source
  | .lines => .ok (Brace.breakdown language config.excludedIdentifiers source)

/-- The breakdown of a text in the language of a tag. -/
def analyzeTagged (config : Config) (tag source : String) : Except AnalysisError Breakdown := do
  let language ← languageOfTag tag
  analyze config language source

/-- A file with its breakdown. -/
structure FileAnalysis where
  path : Path
  language : Language
  source : String
  breakdown : Breakdown
deriving DecidableEq, Inhabited

/-- A file that could not be scored, and why. -/
structure FileFailure where
  path : Path
  message : String
deriving DecidableEq, Repr, Inhabited

/-- Reads a text file. -/
def readSource (tree : FileTree) (path : Path) : Except AnalysisError String :=
  match tree.read path with
  | .ok source => .ok source
  | .error fault => .error (.unreadable fault path.text)

/-- Reads and scores one file, in a given language or in that of its extension. -/
def analyzeFile (config : Config) (tree : FileTree) (forced : Option Language) (path : Path) :
    Except AnalysisError FileAnalysis := do
  let language ←
    match forced with
    | some language => .ok language
    | none => languageOfPath path
  let source ← readSource tree path
  let breakdown ← analyze config language source
  .ok ⟨path, language, source, breakdown⟩

/-- Whether a file below a directory is taken: any file if a language is given, and otherwise one
with a known extension. -/
def isSource (forced : Option Language) (path : Path) : Bool :=
  forced.isSome || (Language.ofExtension? path.extension).isSome

/-- The error of a walk at a directory that cannot be listed. -/
def walkError (dir : Path) : AnalysisError :=
  .internal ("IO error for operation on " ++ dir.text ++ ": " ++ ReadFault.noPermission.message)

/-- What a path stands for: itself, or the source files below it if it is a directory. -/
def expand (tree : FileTree) (forced : Option Language) (path : Path) :
    Except AnalysisError (List Path) :=
  if tree.isDirectory path then
    match tree.filesBelow path with
    | .ok files => .ok (files.filter (isSource forced))
    | .error dir => .error (walkError dir)
  else .ok [path]

/-- What paths stand for, one after the other. -/
def expandAll (tree : FileTree) (forced : Option Language) :
    List Path → Except AnalysisError (List Path)
  | [] => .ok []
  | path :: paths => do
    let first ← expand tree forced path
    let others ← expandAll tree forced paths
    return first ++ others

/-- The files that paths stand for, in order and without repetition. -/
def discover (tree : FileTree) (paths : List Path) (forced : Option Language) :
    Except AnalysisError (List Path) := (expandAll tree forced paths).map Path.sorted

/-- What came of scoring many files. -/
structure ScanReport where
  files : List FileAnalysis
  failures : List FileFailure
deriving DecidableEq, Inhabited

namespace ScanReport

/-- Whether a file failed. -/
def hasErrors (r : ScanReport) : Bool := !r.failures.isEmpty

/-- The decisional complexity of all files together. -/
def totalDc (r : ScanReport) : Nat := r.files.foldr (fun f total => f.breakdown.dc + total) 0

end ScanReport

/-- The outcome for each path on its own. -/
def outcome (config : Config) (tree : FileTree) (forced : Option Language) (path : Path) :
    FileAnalysis ⊕ FileFailure :=
  match analyzeFile config tree forced path with
  | .ok file => .inl file
  | .error e => .inr ⟨path, e.message⟩

/-- Scores many files. -/
def scan (config : Config) (tree : FileTree) (paths : List Path) (forced : Option Language) :
    ScanReport :=
  let outcomes := paths.map (outcome config tree forced)
  ⟨outcomes.filterMap Sum.getLeft?, outcomes.filterMap Sum.getRight?⟩

namespace Config

/-- The configuration in a file. -/
def ofFile (tree : FileTree) (path : Path) : Except AnalysisError Config := do
  let text ← readSource tree path
  match parse text with
  | .ok config => .ok config
  | .error fault => .error fault.toError

/-- The configuration of the working directory.  A file that is missing or wrong is ignored. -/
def ofDirectory (tree : FileTree) : Config :=
  match ofFile tree ⟨fileName⟩ with
  | .ok config => config
  | .error _ => {}

end Config

end DecisionScore
