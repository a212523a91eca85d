import DecisionScore.Breakdown
import DecisionScore.Json.Reader

/-! # Breakdowns as JSON

The shape in which a breakdown is handed on.  Fields stand in a fixed order, maps in the order of
their keys.  When a breakdown is read, an object may have fields in any order and others besides,
but none of its own twice; it may also be an array of its fields in order.  Of two entries of a map
with one key the later counts. -/

namespace DecisionScore.Wire

/-! ### Writing -/

/-- An object with given names. -/
def object (es : List (String × Json)) : Json :=
  .object (es.map fun e => (Json.encode e.1.toList, e.2))

/-- A map with natural numbers for keys. -/
def ofNatMap {α : Type} (f : α → Json) (m : SortedMap Nat α) : Json :=
  .object (m.entries.map fun e => (Nat.toDigits 10 e.1, f e.2))

/-- A map with texts for keys. -/
def ofTextMap {α : Type} (f : α → Json) (m : SortedMap String α) : Json :=
  object (m.entries.map fun e => (e.1, f e.2))

/-- A map with constructs for keys. -/
def ofConstructMap {α : Type} (f : α → Json) (m : SortedMap Construct α) : Json :=
  object (m.entries.map fun e => (e.1.name, f e.2))

/-- The score of a scope. -/
def ofScope (s : ScopeScore) : Json := object [("dc", .ofNat s.dc), ("cc", .ofNat s.cc)]

/-- The statistics of a construct. -/
def ofRecord (r : StructureRecord) : Json :=
  object [("count", .ofNat r.count),
    ("nesting_levels", .array (r.nestingLevels.map .ofNat)),
    ("level_counts", ofNatMap .ofNat r.levelCounts),
    ("nested_conditions", ofNatMap (ofConstructMap .ofNat) r.nestedConditions)]

/-- A breakdown. -/
def ofBreakdown (b : Breakdown) : Json :=
  object [("dc", .ofNat b.dc), ("cc", .ofNat b.cc),
    ("line_scores", ofNatMap .ofNat b.lineScores),
    ("methods", ofTextMap ofScope b.methods),
    ("classes", ofTextMap ofScope b.classes),
    ("structures", ofConstructMap ofRecord b.structures)]

/-- The JSON text of a breakdown. -/
def render (b : Breakdown) : String := (ofBreakdown b).pretty

/-! ### Reading -/

/-- A natural number. -/
def toNat? : Json → Option Nat
  | .number raw => Json.natOf? raw
  | _ => none

/-- A list. -/
def toList? {α : Type} (f : Json → Option α) : Json → Option (List α)
  | .array vs => vs.mapM f
  | _ => none

/-- A map, its keys read by one function and its values by another. -/
def toMap? {κ α : Type} [Ord κ] [Std.TransOrd κ] (key : List Char → Option κ)
    (value : Json → Option α) : Json → Option (SortedMap κ α)
  | .object es => (es.mapM fun (e : List Char × Json) => do
      let k ← key e.1
      let v ← value e.2
      some (k, v)).map .ofList
  | _ => none

/-- A text as a key. -/
def textKey? (raw : List Char) : Option String := (Json.decode raw).map String.ofList

/-- A construct as a key. -/
def constructKey? (raw : List Char) : Option Construct := (textKey? raw).bind Construct.ofName?

/-- The values of the fields of a given name. -/
def valuesOf (name : String) (es : List (String × Json)) : List Json :=
  (es.filter fun e => e.1 == name).map (·.2)

/-- The fields of an object by name, each of them exactly once, or of an array in order. -/
def fields? (names : List String) : Json → Option (List Json)
  | .array vs => if vs.length = names.length then some vs else none
  | .object es => do
    let es ← es.mapM fun e => (textKey? e.1).map fun k => (k, e.2)
    names.mapM fun n =>
      match valuesOf n es with
      | [v] => some v
      | _ => none
  | _ => none

/-- The score of a scope. -/
def toScope? (j : Json) : Option ScopeScore :=
  match fields? ["dc", "cc"] j with
  | some [dc, cc] => do
    let dc ← toNat? dc
    let cc ← toNat? cc
    some ⟨dc, cc⟩
  | _ => none

/-- The statistics of a construct. -/
def toRecord? (j : Json) : Option StructureRecord :=
  match fields? ["count", "nesting_levels", "level_counts", "nested_conditions"] j with
  | some [count, levels, counts, nested] => do
    let count ← toNat? count
    let levels ← toList? toNat? levels
    let counts ← toMap? Json.natOf? toNat? counts
    let nested ← toMap? Json.natOf? (toMap? constructKey? toNat?) nested
    some ⟨count, levels, counts, nested⟩
  | _ => none

/-- A breakdown. -/
def toBreakdown? (j : Json) : Option Breakdown :=
  match fields? ["dc", "cc", "line_scores", "methods", "classes", "structures"] j with
  | some [dc, cc, lines, methods, classes, structures] => do
    let dc ← toNat? dc
    let cc ← toNat? cc
    let lines ← toMap? Json.natOf? toNat? lines
    let methods ← toMap? textKey? toScope? methods
    let classes ← toMap? textKey? toScope? classes
    let structures ← toMap? constructKey? toRecord? structures
    some ⟨dc, cc, lines, methods, classes, structures⟩
  | _ => none

/-- The breakdown that a JSON text stands for. -/
def parse? (text : String) : Option Breakdown := (Json.parse? text.toList).bind toBreakdown?

end DecisionScore.Wire
