/-! # TOML documents

A document is a table; a table is a list of named values.  How a table came about decides whether
it may still be extended: `Origin` records that, and the three operations below keep to the rules
that no key is bound twice and no table is defined twice. -/

namespace DecisionScore.Toml

/-- How a table came about. -/
inductive Origin where
  /-- By its own header, or as the document. -/
  | header
  /-- On the way to another header. -/
  | passed
  /-- By a key with dots. -/
  | dotted
  /-- Written out as a value; it is closed. -/
  | inline
deriving DecidableEq, Repr

/-- A value of a document. -/
inductive Value where
  | string (s : String)
  | integer (i : Int)
  | float
  | boolean (b : Bool)
  | datetime
  | array (values : List Value)
  | table (origin : Origin) (entries : List (String × Value))
  /-- The tables of headers in double brackets, the latest first. -/
  | tables (latestFirst : List (List (String × Value)))
deriving Inhabited

/-- The entries of a table. -/
abbrev Entries := List (String × Value)

namespace Entries

/-- The value of a key. -/
def get? (es : Entries) (key : String) : Option Value :=
  match es with
  | [] => none
  | (k, v) :: rest => if k = key then some v else get? rest key

/-- Binds a key anew, in its place or at the end. -/
def set (es : Entries) (key : String) (v : Value) : Entries :=
  match es with
  | [] => [(key, v)]
  | (k, w) :: rest => if k = key then (k, v) :: rest else (k, w) :: set rest key v

/-- Binds a key that is not bound yet. -/
def bind? (es : Entries) (key : String) (v : Value) : Option Entries :=
  match es.get? key with
  | none => some (es ++ [(key, v)])
  | some _ => none

/-- Binds `key` in the table reached by `path`.  Tables on the way are made where they are missing;
a table that has a header of its own is not entered, and the last one must be made by dots. -/
def bindDotted (key : String) (v : Value) (origin : Origin) :
    List String → Entries → Option Entries
  | [], es => if origin = .dotted then es.bind? key v else none
  | k :: ks, es =>
    match es.get? k with
    | none => (bindDotted key v .dotted ks []).map fun t => es ++ [(k, .table .dotted t)]
    | some (.table .dotted t) =>
      (bindDotted key v .dotted ks t).map fun t => es.set k (.table .dotted t)
    | some (.table .passed t) =>
      (bindDotted key v .passed ks t).map fun t => es.set k (.table .passed t)
    | some (.tables (t :: ts)) =>
      (bindDotted key v .header ks t).map fun t => es.set k (.tables (t :: ts))
    | some _ => none

/-- Binds the key at the end of a path. -/
def bindPath (es : Entries) (path : List String) (key : String) (v : Value) : Option Entries :=
  match path with
  | [] => es.bind? key v
  | _ => bindDotted key v .header path es

/-- Changes the table reached by a path of headers; tables on the way are made where they are
missing, and of tables in double brackets the latest one is meant. -/
def within (f : Entries → Option Entries) : List String → Entries → Option Entries
  | [], es => f es
  | k :: ks, es =>
    match es.get? k with
    | none => (within f ks []).map fun t => es ++ [(k, .table .passed t)]
    | some (.table .inline _) => none
    | some (.table origin t) => (within f ks t).map fun t => es.set k (.table origin t)
    | some (.tables (t :: ts)) => (within f ks t).map fun t => es.set k (.tables (t :: ts))
    | some _ => none

/-- Opens the table of a header: it must be new, or only passed so far. -/
def openTable (key : String) (es : Entries) : Option Entries :=
  match es.get? key with
  | none => some (es ++ [(key, .table .header [])])
  | some (.table .passed t) => some (es.set key (.table .header t))
  | some _ => none

/-- Opens one more table of a header in double brackets. -/
def openElement (key : String) (es : Entries) : Option Entries :=
  match es.get? key with
  | none => some (es ++ [(key, .tables [[]])])
  | some (.tables ts) => some (es.set key (.tables ([] :: ts)))
  | some _ => none

end Entries

end DecisionScore.Toml
