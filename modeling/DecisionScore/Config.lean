import DecisionScore.Error
import DecisionScore.Toml.Parse

/-! # Configuration

Names that start no method, and the bands of the heat listing.  A configuration is read from a
TOML document: keys that are not known are ignored, a section may also be an array of its settings
in order, and settings that are left out keep their defaults. -/

namespace DecisionScore

/-- The scores from which a line counts as hot or warm. -/
structure Bands where
  high : Nat := 10
  medium : Nat := 5
deriving DecidableEq, Repr, Inhabited

/-- A configuration. -/
structure Config where
  /-- Names that start no method, besides those of the language. -/
  excludedIdentifiers : List String := []
  bands : Bands := {}
deriving DecidableEq, Repr, Inhabited

/-- Why a configuration is refused. -/
inductive ConfigFault where
  | unreadable
  | emptyHighBand
  | overlappingBands (medium high : Nat)
deriving DecidableEq, Repr

namespace ConfigFault

/-- The wording of a fault. -/
def message : ConfigFault → String
  | unreadable => "TOML parse error"
  | emptyHighBand => "high_threshold must be positive"
  | overlappingBands medium high =>
    "medium_threshold (" ++ toString medium ++ ") exceeds high_threshold (" ++ toString high
      ++ ")"

/-- The fault as an error of an analysis. -/
def toError (f : ConfigFault) : AnalysisError := .config f.message

end ConfigFault

namespace Config

/-- The file that is read where none is named. -/
def fileName : String := "decisional.toml"

/-- A setting that is a natural number. -/
def natOf? : Toml.Value → Option Nat
  | .integer (.ofNat n) => some n
  | _ => none

/-- A setting that is a list of strings. -/
def stringsOf? : Toml.Value → Option (List String)
  | .array vs => vs.mapM fun
    | .string s => some s
    | _ => none
  | _ => none

/-- The value of a setting, or its default where it is left out. -/
def setting {α : Type} (read : Toml.Value → Option α) (default : α) : Option Toml.Value → Option α
  | none => some default
  | some v => read v

/-- The settings of a section by name, or in order.  A date has one part, of no known name. -/
def section? (names : List String) : Toml.Value → Option (List (Option Toml.Value))
  | .table _ es => some (names.map fun n => Toml.Entries.get? es n)
  | .array vs => some (names.zipIdx.map fun (_, i) => vs[i]?)
  | .tables ts => some (names.zipIdx.map fun (_, i) => (ts.reverse.map (.table .header))[i]?)
  | .datetime => some (names.map fun _ => none)
  | _ => none

/-- The list of names in its section. -/
def excludedOf? (v : Toml.Value) : Option (List String) :=
  match section? ["excluded_identifiers"] v with
  | some [names] => setting stringsOf? [] names
  | _ => none

/-- The bands in their section. -/
def bandsOf? (v : Toml.Value) : Option Bands :=
  match section? ["high_threshold", "medium_threshold"] v with
  | some [high, medium] => do
    let high ← setting natOf? 10 high
    let medium ← setting natOf? 5 medium
    some ⟨high, medium⟩
  | _ => none

/-- The configuration of a document. -/
def ofEntries? (es : Toml.Entries) : Option Config := do
  let excluded ← setting excludedOf? [] (es.get? "heuristics")
  let bands ← setting bandsOf? {} (es.get? "report")
  some ⟨excluded, bands⟩

/-- Refuses bands that are empty or overlap. -/
def validate (c : Config) : Except ConfigFault Unit :=
  if c.bands.high = 0 then .error .emptyHighBand
  else if c.bands.high < c.bands.medium then
    .error (.overlappingBands c.bands.medium c.bands.high)
  else .ok ()

/-- The configuration of a text. -/
def parse (text : String) : Except ConfigFault Config :=
  match (Toml.parse? text).bind ofEntries? with
  | none => .error .unreadable
  | some c =>
    match c.validate with
    | .ok _ => .ok c
    | .error f => .error f

end Config

end DecisionScore
