import DecisionScore.Construct
import DecisionScore.SortedMap

/-! # The complexity breakdown of a source text

A `Breakdown` holds the two totals, the score of every line, the closed methods and classes, and
per kind of construct its occurrence statistics.  It is built up from `Breakdown.baseline` by the
operations below: `score`, `addPaths`, `closeMethod`, `closeClass`, `record` and `noteNested`.
A `Scope` is a method or class body that is still open and collects its own score. -/

namespace DecisionScore

/-- Decisional and cyclomatic complexity of a method or class body. -/
structure ScopeScore where
  dc : Nat
  cc : Nat
deriving DecidableEq, Repr, Inhabited

/-- A fresh body: no decision, one path. -/
def ScopeScore.baseline : ScopeScore := ⟨0, 1⟩

/-- Occurrence statistics of one kind of construct. -/
structure StructureRecord where
  /-- The number of occurrences. -/
  count : Nat
  /-- The depth of each occurrence, in order. -/
  nestingLevels : List Nat
  /-- How many occurrences each depth has. -/
  levelCounts : SortedMap Nat Nat
  /-- Per depth, how many constructs of each kind were found nested under an occurrence there. -/
  nestedConditions : SortedMap Nat (SortedMap Construct Nat)
deriving DecidableEq, Inhabited

/-- Adds one to a count that may not exist yet. -/
def bump : Option Nat → Nat := fun n => n.getD 0 + 1

namespace StructureRecord

/-- A record without occurrences. -/
def empty : StructureRecord := ⟨0, [], ∅, ∅⟩

/-- One more occurrence, at `depth`. -/
def record (r : StructureRecord) (depth : Nat) : StructureRecord where
  count := r.count + 1
  nestingLevels := r.nestingLevels ++ [depth]
  levelCounts := r.levelCounts.upsert depth bump
  nestedConditions := r.nestedConditions.upsert depth fun nested => nested.getD ∅

/-- One more `child` nested under an occurrence at `depth`. -/
def noteNested (r : StructureRecord) (depth : Nat) (child : Construct) : StructureRecord :=
  { r with
    nestedConditions := r.nestedConditions.upsert depth fun nested =>
      (nested.getD ∅).upsert child bump }

end StructureRecord

/-- The statistics of every kind that has any. -/
abbrev Structures := SortedMap Construct StructureRecord

namespace Structures

/-- Records one occurrence of `kind` at `depth`. -/
def record (s : Structures) (kind : Construct) (depth : Nat) : Structures :=
  s.upsert kind fun r => (r.getD .empty).record depth

/-- Notes a `child` nested under a `parent` that stands at `depth`. -/
def noteNested (s : Structures) (parent : Construct) (depth : Nat) (child : Construct) :
    Structures :=
  s.upsert parent fun r => (r.getD .empty).noteNested depth child

end Structures

/-- An open method or class body that collects its own score. -/
structure Scope where
  name : String
  score : ScopeScore
deriving DecidableEq, Repr, Inhabited

namespace Scope

/-- Opens a body. -/
def start (name : String) : Scope := ⟨name, .baseline⟩

/-- Charges one construct. -/
def charge (s : Scope) (dc : Nat) : Scope := { s with score := ⟨s.score.dc + dc, s.score.cc + 1⟩ }

/-- Adds paths that belong to no construct. -/
def addPaths (s : Scope) (paths : Nat) : Scope :=
  { s with score := ⟨s.score.dc, s.score.cc + paths⟩ }

end Scope

/-- The complexity breakdown of one source text. -/
structure Breakdown where
  /-- Decisional complexity of the whole text. -/
  dc : Nat
  /-- Cyclomatic complexity of the whole text. -/
  cc : Nat
  /-- Decisional complexity by line, counted from one. -/
  lineScores : SortedMap Nat Nat
  methods : SortedMap String ScopeScore
  classes : SortedMap String ScopeScore
  structures : Structures
deriving DecidableEq, Inhabited

namespace Breakdown

/-- The breakdown of a text without decisions. -/
def baseline : Breakdown := ⟨0, 1, ∅, ∅, ∅, ∅⟩

/-- Whether nothing was found. -/
def isBaseline (b : Breakdown) : Bool := b = baseline

/-- The score of a line, zero where nothing was scored. -/
def lineScore (b : Breakdown) (line : Nat) : Nat := (b.lineScores.get? line).getD 0

/-- Scores one construct on a line. -/
def score (b : Breakdown) (line dc : Nat) : Breakdown :=
  { b with
    dc := b.dc + dc
    cc := b.cc + 1
    lineScores := b.lineScores.upsert line fun n => n.getD 0 + dc }

/-- Adds paths that belong to no construct. -/
def addPaths (b : Breakdown) (paths : Nat) : Breakdown := { b with cc := b.cc + paths }

/-- Stores a finished method; a later one of the same name replaces it. -/
def closeMethod (b : Breakdown) (s : Scope) : Breakdown :=
  { b with methods := b.methods.insert s.name s.score }

/-- Stores a finished class; a later one of the same name replaces it. -/
def closeClass (b : Breakdown) (s : Scope) : Breakdown :=
  { b with classes := b.classes.insert s.name s.score }

/-- Records one occurrence of `kind` at `depth`. -/
def record (b : Breakdown) (kind : Construct) (depth : Nat) : Breakdown :=
  { b with structures := Structures.record b.structures kind depth }

/-- Notes a `child` nested under a `parent` that stands at `depth`. -/
def noteNested (b : Breakdown) (parent : Construct) (depth : Nat) (child : Construct) :
    Breakdown :=
  { b with structures := Structures.noteNested b.structures parent depth child }

end Breakdown

end DecisionScore
