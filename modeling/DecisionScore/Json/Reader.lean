import DecisionScore.Json

/-! # Reading JSON

`Json.parse?` reads a whole JSON text.  Strings are checked for their escapes but not decoded. -/

namespace DecisionScore.Json

/-- Whether a character may stand between tokens. -/
def isSpace (c : Char) : Bool := c = ' ' || c = '\n' || c = '\t' || c = '\r'

/-- The text after blank space. -/
def skipSpace (cs : List Char) : List Char := cs.dropWhile isSpace

/-- The characters of a string up to its closing quote, and the rest. -/
def stringBody : List Char → Option (List Char × List Char)
  | [] => none
  | '"' :: rest => some ([], rest)
  | '\\' :: 'u' :: a :: b :: c :: d :: rest =>
    if (hexValue? a).isSome && (hexValue? b).isSome && (hexValue? c).isSome
        && (hexValue? d).isSome then
      (stringBody rest).map fun (raw, rest) => ('\\' :: 'u' :: a :: b :: c :: d :: raw, rest)
    else none
  | '\\' :: e :: rest =>
    if (simpleEscape? e).isSome then
      (stringBody rest).map fun (raw, rest) => ('\\' :: e :: raw, rest)
    else none
  | c :: rest =>
    if c.toNat < 32 || c = '\\' then none
    else (stringBody rest).map fun (raw, rest) => (c :: raw, rest)

/-- One or more digits at the front of a text. -/
def digits? (cs : List Char) : Option (List Char × List Char) :=
  match cs.takeWhile Char.isDigit with
  | [] => none
  | ds => some (ds, cs.dropWhile Char.isDigit)

/-- The digits before a point, without superfluous zeros. -/
def whole? : List Char → Option (List Char × List Char)
  | '0' :: rest => if (rest.head?.any Char.isDigit) then none else some (['0'], rest)
  | cs => digits? cs

/-- The part of a number after its point, if it has one. -/
def fraction? : List Char → Option (List Char × List Char)
  | '.' :: rest => (digits? rest).map fun (ds, rest) => ('.' :: ds, rest)
  | cs => some ([], cs)

/-- The exponent of a number, if it has one. -/
def exponent? : List Char → Option (List Char × List Char)
  | e :: rest =>
    if e = 'e' || e = 'E' then
      match rest with
      | s :: more =>
        if s = '+' || s = '-' then (digits? more).map fun (ds, rest) => (e :: s :: ds, rest)
        else (digits? rest).map fun (ds, rest) => (e :: ds, rest)
      | [] => none
    else some ([], e :: rest)
  | [] => some ([], [])

/-- A number without a sign. -/
def unsigned? (cs : List Char) : Option (List Char × List Char) := do
  let (whole, rest) ← whole? cs
  let (frac, rest) ← fraction? rest
  let (exp, rest) ← exponent? rest
  some (whole ++ frac ++ exp, rest)

/-- A number. -/
def number? : List Char → Option (List Char × List Char)
  | '-' :: rest => (unsigned? rest).map fun (raw, rest) => ('-' :: raw, rest)
  | cs => unsigned? cs

mutual

/-- A value; at most `fuel` steps are taken. -/
def value? : Nat → List Char → Option (Json × List Char)
  | 0, _ => none
  | fuel + 1, cs =>
    match skipSpace cs with
    | 'n' :: 'u' :: 'l' :: 'l' :: rest => some (.null, rest)
    | 't' :: 'r' :: 'u' :: 'e' :: rest => some (.boolean true, rest)
    | 'f' :: 'a' :: 'l' :: 's' :: 'e' :: rest => some (.boolean false, rest)
    | '"' :: rest => (stringBody rest).map fun (raw, rest) => (.string raw, rest)
    | '[' :: rest =>
      match skipSpace rest with
      | ']' :: rest => some (.array [], rest)
      | rest => (values? fuel rest).map fun (vs, rest) => (.array vs, rest)
    | '{' :: rest =>
      match skipSpace rest with
      | '}' :: rest => some (.object [], rest)
      | rest => (entries? fuel rest).map fun (es, rest) => (.object es, rest)
    | rest => (number? rest).map fun (raw, rest) => (.number raw, rest)

/-- One or more values of an array, up to its closing bracket. -/
def values? : Nat → List Char → Option (List Json × List Char)
  | 0, _ => none
  | fuel + 1, cs => do
    let (v, rest) ← value? fuel cs
    match skipSpace rest with
    | ',' :: rest => do
      let (vs, rest) ← values? fuel rest
      some (v :: vs, rest)
    | ']' :: rest => some ([v], rest)
    | _ => none

/-- One or more entries of an object, up to its closing brace. -/
def entries? : Nat → List Char → Option (List (List Char × Json) × List Char)
  | 0, _ => none
  | fuel + 1, cs =>
    match skipSpace cs with
    | '"' :: rest => do
      let (k, rest) ← stringBody rest
      match skipSpace rest with
      | ':' :: rest => do
        let (v, rest) ← value? fuel rest
        match skipSpace rest with
        | ',' :: rest => do
          let (es, rest) ← entries? fuel rest
          some ((k, v) :: es, rest)
        | '}' :: rest => some ([(k, v)], rest)
        | _ => none
      | _ => none
    | _ => none

end

/-- Reads a whole text. -/
def parse? (text : List Char) : Option Json :=
  match value? (text.length + 1) text with
  | some (j, rest) => if (skipSpace rest).isEmpty then some j else none
  | none => none

end DecisionScore.Json
