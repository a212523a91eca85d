import DecisionScore.Analysis
import DecisionScore.Report.Heat
import DecisionScore.Report.Style
import DecisionScore.Wire

/-! # Reports

The report on a file lists its lines with their heat, and then the methods, classes and constructs
it has.  The report on a scan has one for every file, the failures, and a closing line with the
totals; as JSON it maps the path of every file to its breakdown. -/

namespace DecisionScore.Report

/-- A text at the right of a column. -/
def alignRight (width : Nat) (text : String) : String :=
  String.ofList (List.replicate (width - text.length) ' ') ++ text

/-- A text at the left of a column. -/
def alignLeft (width : Nat) (text : String) : String :=
  text ++ String.ofList (List.replicate (width - text.length) ' ')

/-- Lines, each of them ended. -/
def lines (l : List String) : String := String.join (l.map fun s => s ++ "\n")

/-- The style of a band. -/
def heatStyle : HeatLevel → Style
  | .low => .green
  | .medium => .yellow
  | .high => .boldRed

/-- A row of the heat listing. -/
def heatRow (color : Bool) (bands : Bands) (row : HeatRow) : String :=
  let gutter :=
    alignRight 4 (toString row.line) ++ " " ++ alignRight 4 (toString row.score) ++ " |"
  (heatStyle (.classify bands row.score)).paint color gutter ++ " " ++ String.ofList row.text

/-- The heat listing of a text. -/
def heatListing (color : Bool) (bands : Bands) (source : String) (b : Breakdown) : List String :=
  (HeatRow.listing source b).map (heatRow color bands)

/-- The heading of a part. -/
def heading (color : Bool) (title : String) : List String :=
  ["", "  " ++ Style.boldCyan.paint color title]

/-- A method or class. -/
def scopeLine (name : String) (s : ScopeScore) : String :=
  "    " ++ alignLeft 32 name ++ " DC " ++ alignRight 5 (toString s.dc) ++ "  CC "
    ++ alignRight 3 (toString s.cc)

/-- The part on methods or classes, if there are any. -/
def scopes (color : Bool) (title : String) (m : SortedMap String ScopeScore) : List String :=
  if m.isEmpty then []
  else heading color title ++ m.entries.map fun e => scopeLine e.1 e.2

/-- What was found nested under the occurrences at a depth. -/
def nestedLine (color : Bool) (depth : Nat) (nested : SortedMap Construct Nat) : String :=
  let inner := nested.entries.map fun e => e.1.name ++ ":" ++ toString e.2
  "      " ++ Style.dimmed.paint color ("at d" ++ toString depth ++ " contains") ++ " "
    ++ ", ".intercalate inner

/-- A construct and what was found nested under it. -/
def structureLines (color : Bool) (kind : Construct) (r : StructureRecord) : List String :=
  let levels := r.levelCounts.entries.map fun e => "d" ++ toString e.1 ++ ":" ++ toString e.2
  let head := "    " ++ alignLeft 8 kind.name ++ " x" ++ alignLeft 4 (toString r.count) ++ " "
    ++ Style.dimmed.paint color (" ".intercalate levels)
  let nested := r.nestedConditions.entries.filter fun e => !e.2.isEmpty
  head :: nested.map fun e => nestedLine color e.1 e.2

/-- The part on constructs, if there are any. -/
def structures (color : Bool) (m : Structures) : List String :=
  if m.isEmpty then []
  else heading color "Structures" ++ m.entries.flatMap fun e => structureLines color e.1 e.2

/-- The report on a file, line by line. -/
def fileLines (color : Bool) (bands : Bands) (f : FileAnalysis) : List String :=
  let b := f.breakdown
  let totals := "  language: " ++ f.language.tag ++ "  " ++ Style.cyan.paint color "DC" ++ " "
    ++ toString b.dc ++ "  " ++ Style.cyan.paint color "CC" ++ " " ++ toString b.cc
  [Style.bold.paint color f.path.text, totals, ""]
    ++ heatListing color bands f.source b
    ++ scopes color "Methods" b.methods ++ scopes color "Classes" b.classes
    ++ structures color b.structures

/-- The report on a file. -/
def file (color : Bool) (bands : Bands) (f : FileAnalysis) : String :=
  lines (fileLines color bands f)

/-- A file that failed. -/
def failureLine (color : Bool) (f : FileFailure) : String :=
  Style.boldRed.paint color "failed:" ++ " " ++ f.path.text ++ ": " ++ f.message

/-- The closing line of a scan that took so many milliseconds. -/
def totalsLine (r : ScanReport) (elapsed : String) : String :=
  toString r.files.length ++ " file(s), total DC " ++ toString r.totalDc ++ " in " ++ elapsed
    ++ "ms"

/-- The report on a scan. -/
def scan (color : Bool) (bands : Bands) (elapsed : String) (r : ScanReport) : String :=
  lines (r.files.flatMap (fun f => fileLines color bands f ++ [""])
    ++ r.failures.map (failureLine color) ++ [totalsLine r elapsed])

/-- The breakdowns of a scan by path, as JSON text.  Of two files with one path the later counts. -/
def scanJson (r : ScanReport) : String :=
  (Wire.ofTextMap Wire.ofBreakdown
    (.ofList (r.files.map fun f => (f.path.text, f.breakdown)))).pretty

end DecisionScore.Report
