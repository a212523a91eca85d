import DecisionScore.Toml.Scalar
import DecisionScore.Toml.Value

/-! # Reading TOML documents

`parse?` reads a document line by line: headers, bindings, comments and blank lines. -/

namespace DecisionScore.Toml

open Scalar

/-- How deep values may nest, and how many parts a key may have. -/
def nestingLimit : Nat := 80

/-- Whether a character may stand in a key without quotes. -/
def isBareKeyChar (c : Char) : Bool := c.isAlphanum || c = '-' || c = '_'

/-- The text after spaces and tabs. -/
def skipSpace (cs : List Char) : List Char := cs.dropWhile isSpace

/-- The text after a comment. -/
def skipComment : List Char → List Char
  | '#' :: cs => cs.dropWhile isTextChar
  | cs => cs

/-- One part of a key. -/
def keyPart (cs : List Char) : Option (String × List Char) :=
  match cs.takeWhile isBareKeyChar with
  | [] => shortString cs
  | ds => some (String.ofList ds, cs.drop ds.length)

/-- The parts of a key, at most `fuel` of them. -/
def keyParts : Nat → List Char → Option (List String × List Char)
  | 0, _ => none
  | fuel + 1, cs => do
    let (k, rest) ← keyPart (skipSpace cs)
    match skipSpace rest with
    | '.' :: rest => do
      let (ks, rest) ← keyParts fuel rest
      some (k :: ks, rest)
    | rest => some ([k], rest)

/-- A key with dots: the way to it, and its last part. -/
def key (cs : List Char) : Option ((List String × String) × List Char) := do
  let (parts, rest) ← keyParts (nestingLimit - 1) cs
  let last ← parts.getLast?
  some ((parts.dropLast, last), rest)

/-- The text after blank space, comments and line breaks within an array. -/
def skipFiller : Nat → List Char → List Char
  | 0, cs => cs
  | fuel + 1, cs =>
    let rest := skipComment (skipSpace cs)
    match newline rest with
    | some rest => skipFiller fuel rest
    | none => rest

/-- A number, a date or a time. -/
def number (cs : List Char) : Option (Value × List Char) :=
  match datetime cs with
  | some rest => some (.datetime, rest)
  | none =>
    match float cs with
    | some rest => some (.float, rest)
    | none => (integer cs).map fun (i, rest) => (.integer i, rest)

/-- A value that has no parts. -/
def simple (cs : List Char) : Option (Value × List Char) :=
  match cs with
  | 't' :: _ => (literal ['t', 'r', 'u', 'e'] cs).map fun rest => (.boolean true, rest)
  | 'f' :: _ => (literal ['f', 'a', 'l', 's', 'e'] cs).map fun rest => (.boolean false, rest)
  | c :: _ =>
    if c = '"' || c = '\'' then (string cs).map fun (s, rest) => (.string s, rest)
    else number cs
  | [] => none

mutual

/-- A value; `depth` more levels may be opened, and at most `fuel` steps taken. -/
def value (depth : Nat) : Nat → List Char → Option (Value × List Char)
  | 0, _ => none
  | fuel + 1, cs =>
    match cs with
    | '[' :: rest =>
      match depth with
      | 0 => none
      | d + 1 => (elements d fuel rest).map fun (vs, rest) => (.array vs, rest)
    | '{' :: rest =>
      match depth with
      | 0 => none
      | d + 1 => (inlineTable d fuel rest).map fun (es, rest) => (.table .inline es, rest)
    | _ => simple cs

/-- The values of an array, up to its closing bracket. -/
def elements (depth : Nat) : Nat → List Char → Option (List Value × List Char)
  | 0, _ => none
  | fuel + 1, cs =>
    match skipFiller cs.length cs with
    | ']' :: rest => some ([], rest)
    | rest => do
      let (v, rest) ← value depth fuel rest
      match skipFiller rest.length rest with
      | ',' :: rest => do
        let (vs, rest) ← elements depth fuel rest
        some (v :: vs, rest)
      | ']' :: rest => some ([v], rest)
      | _ => none

/-- The bindings of an inline table, up to its closing brace. -/
def inlineTable (depth : Nat) : Nat → List Char → Option (Entries × List Char)
  | 0, _ => none
  | fuel + 1, cs =>
    match skipSpace cs with
    | '}' :: rest => some ([], rest)
    | rest => bindings depth [] fuel rest

/-- One or more bindings of an inline table. -/
def bindings (depth : Nat) (es : Entries) : Nat → List Char → Option (Entries × List Char)
  | 0, _ => none
  | fuel + 1, cs => do
    let ((path, k), rest) ← key cs
    let rest ← literal ['='] rest
    let (v, rest) ← value depth fuel (skipSpace rest)
    let es ← es.bindPath path k v
    match skipSpace rest with
    | ',' :: rest => bindings depth es fuel rest
    | '}' :: rest => some (es, rest)
    | _ => none

end

/-- The text after the end of a line: blank space, a comment, and a line break or the end of the
document. -/
def endOfLine (cs : List Char) : Option (List Char) :=
  match skipComment (skipSpace cs) with
  | [] => some []
  | rest => newline rest

/-- A document under way: what is bound so far, and the table the next bindings go to. -/
structure Document where
  entries : Entries
  path : List String

/-- Opens the table of a header. -/
def Document.openHeader (d : Document) (path : List String) (k : String) (element : Bool) :
    Option Document := do
  let f := if element then Entries.openElement k else Entries.openTable k
  let es ← Entries.within f path d.entries
  some ⟨es, path ++ [k]⟩

/-- Reads a header, after its first bracket. -/
def header (d : Document) (cs : List Char) : Option (Document × List Char) := do
  let element := cs.head? = some '['
  let ((path, k), rest) ← key (if element then cs.drop 1 else cs)
  let rest ← literal (if element then [']', ']'] else [']']) rest
  let d ← d.openHeader path k element
  let rest ← endOfLine rest
  some (d, rest)

/-- Reads a binding. -/
def binding (d : Document) (cs : List Char) : Option (Document × List Char) := do
  let ((path, k), rest) ← key cs
  let rest ← literal ['='] rest
  let (v, rest) ← value (nestingLimit - 1) (rest.length + 1) (skipSpace rest)
  let es ← Entries.within (fun es => es.bindPath path k v) d.path d.entries
  let rest ← endOfLine rest
  some ({ d with entries := es }, rest)

/-- Reads lines until the end; at most `fuel` of them. -/
def lines : Nat → Document → List Char → Option Entries
  | 0, _, _ => none
  | fuel + 1, d, cs =>
    match skipSpace cs with
    | [] => some d.entries
    | '#' :: rest => do
      let rest ← endOfLine ('#' :: rest)
      lines fuel d rest
    | '[' :: rest => do
      let (d, rest) ← header d rest
      lines fuel d rest
    | c :: rest =>
      match newline (c :: rest) with
      | some rest => lines fuel d rest
      | none => do
        let (d, rest) ← binding d (c :: rest)
        lines fuel d rest

/-- Reads a document. -/
def parse? (text : String) : Option Entries :=
  let cs := match text.toList with
    | '\ufeff' :: cs => cs
    | cs => cs
  lines (cs.length + 1) ⟨[], []⟩ cs

end DecisionScore.Toml
