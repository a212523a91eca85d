/-! # Scalars of TOML

Numbers, dates and strings at the front of a text.  Each function gives what it has read and the
rest of the text, or nothing. -/

namespace DecisionScore.Toml.Scalar

/-! ### Characters -/

/-- Whether a character is a space or a tab. -/
def isSpace (c : Char) : Bool := c = ' ' || c = '\t'

/-- Whether a character may stand in a comment or a string. -/
def isTextChar (c : Char) : Bool := c = '\t' || (32 ≤ c.toNat && c.toNat != 127)

/-- The text after a given beginning. -/
def literal (start : List Char) (cs : List Char) : Option (List Char) :=
  if start.isPrefixOf cs then some (cs.drop start.length) else none

/-- The text after a line break. -/
def newline : List Char → Option (List Char)
  | '\n' :: cs => some cs
  | '\r' :: '\n' :: cs => some cs
  | _ => none

/-- The value of a digit in any base up to sixteen. -/
def digitValue (c : Char) : Nat :=
  if c.isDigit then c.toNat - '0'.toNat
  else if 'a' ≤ c && c ≤ 'f' then c.toNat - 'a'.toNat + 10
  else if 'A' ≤ c && c ≤ 'F' then c.toNat - 'A'.toNat + 10
  else 16

/-- Whether a character is a digit of a base. -/
def isDigitIn (base : Nat) (c : Char) : Bool := digitValue c < base

/-- The number that digits stand for. -/
def ofDigits (base : Nat) (ds : List Char) : Nat :=
  ds.foldl (fun n c => n * base + digitValue c) 0

/-- Digits after the first one, with single underscores between. -/
def moreDigits (base : Nat) : List Char → List Char × List Char
  | [] => ([], [])
  | c :: cs =>
    if isDigitIn base c then
      let (ds, rest) := moreDigits base cs
      (c :: ds, rest)
    else if c = '_' then
      match cs with
      | [] => ([], [c])
      | d :: ds' =>
        if isDigitIn base d then
          let (ds, rest) := moreDigits base ds'
          (d :: ds, rest)
        else ([], c :: cs)
    else ([], c :: cs)

/-- One or more digits, with single underscores between. -/
def digits (base : Nat) : List Char → Option (List Char × List Char)
  | [] => none
  | c :: cs =>
    if isDigitIn base c then
      let (ds, rest) := moreDigits base cs
      some (c :: ds, rest)
    else none

/-- A sign or none; gives whether it is negative. -/
def sign : List Char → Bool × List Char
  | '+' :: cs => (false, cs)
  | '-' :: cs => (true, cs)
  | cs => (false, cs)

/-! ### Integers -/

/-- Decimal digits that do not start with a superfluous zero. -/
def decimal : List Char → Option (List Char × List Char)
  | '0' :: cs => some (['0'], cs)
  | cs => digits 10 cs

/-- The number if it fits into 64 bits with a sign. -/
def inRange (i : Int) : Option Int :=
  if -9223372036854775808 ≤ i && i ≤ 9223372036854775807 then some i else none

/-- An integer. -/
def integer (cs : List Char) : Option (Int × List Char) :=
  let based (base : Nat) (cs : List Char) : Option (Int × List Char) := do
    let (ds, rest) ← digits base cs
    let i ← inRange (ofDigits base ds)
    some (i, rest)
  match cs with
  | '0' :: 'x' :: rest => based 16 rest
  | '0' :: 'o' :: rest => based 8 rest
  | '0' :: 'b' :: rest => based 2 rest
  | _ => do
    let (negative, rest) := sign cs
    let (ds, rest) ← decimal rest
    let n : Int := ofDigits 10 ds
    let i ← inRange (if negative then -n else n)
    some (i, rest)

/-! ### Floats -/

/-- Whether `digits * 10 ^ exponent` is too large for a double: it is if it is at least half a
unit above the largest one. -/
def overflows (mantissa : Nat) (exponent : Int) (length : Nat) : Bool :=
  if mantissa = 0 then false
  else if exponent + length < 300 then false
  else if 400 < exponent + length then true
  else
    let bound := Nat.pow 2 1024 - Nat.pow 2 970
    match exponent with
    | .ofNat e => bound ≤ mantissa * Nat.pow 10 e
    | .negSucc e => bound * Nat.pow 10 (e + 1) ≤ mantissa

/-- An exponent. -/
def exponent : List Char → Option (Int × List Char)
  | e :: cs =>
    if e = 'e' || e = 'E' then do
      let (negative, rest) := sign cs
      let (ds, rest) ← digits 10 rest
      let n : Int := ofDigits 10 ds
      some (if negative then -n else n, rest)
    else none
  | [] => none

/-- The digits after a point. -/
def fraction : List Char → Option (List Char × List Char)
  | '.' :: cs => digits 10 cs
  | _ => none

/-- A float; its value does not matter, only that it is not too large. -/
def float (cs : List Char) : Option (List Char) :=
  let (negative, unsigned) := sign cs
  let finite : Option (List Char) := do
    let (whole, rest) ← decimal unsigned
    let (frac, rest, hasFraction) := match fraction rest with
      | some (ds, rest) => (ds, rest, true)
      | none => ([], rest, false)
    let (exp, rest, hasExponent) := match exponent rest with
      | some (e, rest) => (e, rest, true)
      | none => (0, rest, false)
    let all := whole ++ frac
    if !(hasFraction || hasExponent) then none
    else if !negative && overflows (ofDigits 10 all) (exp - frac.length) all.length then none
    else some rest
  finite <|> literal ['i', 'n', 'f'] unsigned <|> literal ['n', 'a', 'n'] unsigned

/-! ### Dates and times -/

/-- Exactly `n` digits, as a number between two bounds. -/
def fixed (n lo hi : Nat) (cs : List Char) : Option (Nat × List Char) :=
  let ds := cs.take n
  let value := ofDigits 10 ds
  if ds.length = n && ds.all Char.isDigit && lo ≤ value && value ≤ hi then
    some (value, cs.drop n)
  else none

/-- The number of days of a month. -/
def daysIn (year month : Nat) : Nat :=
  if month = 2 then
    if year % 4 = 0 && (year % 100 != 0 || year % 400 = 0) then 29 else 28
  else if [4, 6, 9, 11].contains month then 30
  else 31

/-- A date. -/
def date (cs : List Char) : Option (List Char) := do
  let (year, rest) ← fixed 4 0 9999 cs
  let rest ← literal ['-'] rest
  let (month, rest) ← fixed 2 1 12 rest
  let rest ← literal ['-'] rest
  let (_, rest) ← fixed 2 1 (daysIn year month) rest
  some rest

/-- The fraction of a second, if there is one. -/
def secondFraction : List Char → List Char
  | '.' :: cs =>
    match cs.takeWhile Char.isDigit with
    | [] => '.' :: cs
    | ds => cs.drop ds.length
  | cs => cs

/-- A time of day. -/
def time (cs : List Char) : Option (List Char) := do
  let (_, rest) ← fixed 2 0 23 cs
  let rest ← literal [':'] rest
  let (_, rest) ← fixed 2 0 59 rest
  let rest ← literal [':'] rest
  let (_, rest) ← fixed 2 0 60 rest
  some (secondFraction rest)

/-- An offset from universal time. -/
def offset : List Char → Option (List Char)
  | c :: cs =>
    if c = 'Z' || c = 'z' then some cs
    else if c = '+' || c = '-' then do
      let (_, rest) ← fixed 2 0 23 cs
      let rest ← literal [':'] rest
      let (_, rest) ← fixed 2 0 59 rest
      some rest
    else none
  | [] => none

/-- A date, a time, or both with or without an offset. -/
def datetime (cs : List Char) : Option (List Char) :=
  match date cs with
  | none => time cs
  | some rest =>
    match rest with
    | c :: more =>
      if c = 'T' || c = 't' || c = ' ' then
        match time more with
        | some rest' => some ((offset rest').getD rest')
        | none => some rest
      else some rest
    | [] => some rest

/-! ### Strings -/

/-- The character of a number of hexadecimal digits. -/
def unicode (n : Nat) (cs : List Char) : Option (Char × List Char) :=
  let ds := cs.take n
  let value := ofDigits 16 ds
  if ds.length = n && ds.all (isDigitIn 16) && value.isValidChar then
    some (Char.ofNat value, cs.drop n)
  else none

/-- The character of an escape, after the backslash. -/
def escape : List Char → Option (Char × List Char)
  | 'b' :: cs => some ('\x08', cs)
  | 't' :: cs => some ('\t', cs)
  | 'n' :: cs => some ('\n', cs)
  | 'f' :: cs => some ('\x0c', cs)
  | 'r' :: cs => some ('\r', cs)
  | '"' :: cs => some ('"', cs)
  | '\\' :: cs => some ('\\', cs)
  | 'u' :: cs => unicode 4 cs
  | 'U' :: cs => unicode 8 cs
  | _ => none

/-- The text after blank space and line breaks; at most `fuel` characters are read. -/
def skipBlank : Nat → List Char → List Char
  | 0, cs => cs
  | fuel + 1, cs =>
    match newline cs with
    | some rest => skipBlank fuel rest
    | none =>
      match cs with
      | c :: rest => if isSpace c then skipBlank fuel rest else cs
      | [] => []

/-- The text after a backslash at the end of a line, if what follows it is one. -/
def lineEnd (cs : List Char) : Option (List Char) :=
  (newline (cs.dropWhile isSpace)).map fun rest => skipBlank rest.length rest

/-- The characters of a string on one line, up to its closing quote. -/
def lineString (quote : Char) : Nat → List Char → Option (List Char × List Char)
  | 0, _ => none
  | _ + 1, [] => none
  | fuel + 1, c :: cs =>
    if c = quote then some ([], cs)
    else if c = '\\' && quote = '"' then do
      let (x, rest) ← escape cs
      let (xs, rest) ← lineString quote fuel rest
      some (x :: xs, rest)
    else if isTextChar c then do
      let (xs, rest) ← lineString quote fuel cs
      some (c :: xs, rest)
    else none

/-- The characters of a string over several lines, up to its three closing quotes.  Up to two
quotes may stand right before those. -/
def blockString (quote : Char) : Nat → List Char → Option (List Char × List Char)
  | 0, _ => none
  | _ + 1, [] => none
  | fuel + 1, c :: cs =>
    if c = quote then
      let n := ((c :: cs).takeWhile (· = quote)).length
      if n < 3 then do
        let (xs, rest) ← blockString quote fuel cs
        some (c :: xs, rest)
      else
        let inner := min n 5 - 3
        some (List.replicate inner quote, (c :: cs).drop (inner + 3))
    else if c = '\\' && quote = '"' then
      match lineEnd cs with
      | some rest => blockString quote fuel rest
      | none => do
        let (x, rest) ← escape cs
        let (xs, rest) ← blockString quote fuel rest
        some (x :: xs, rest)
    else
      match newline (c :: cs) with
      | some rest => do
        let (xs, rest) ← blockString quote fuel rest
        some ('\n' :: xs, rest)
      | none =>
        if isTextChar c then do
          let (xs, rest) ← blockString quote fuel cs
          some (c :: xs, rest)
        else none

/-- A string on one line. -/
def shortString : List Char → Option (String × List Char)
  | [] => none
  | c :: cs =>
    if c = '"' || c = '\'' then
      (lineString c (cs.length + 1) cs).map fun (xs, rest) => (String.ofList xs, rest)
    else none

/-- A string. -/
def string (cs : List Char) : Option (String × List Char) :=
  match cs with
  | a :: b :: c :: rest =>
    if (a = '"' || a = '\'') && b = a && c = a then
      let body := (newline rest).getD rest
      (blockString a (body.length + 1) body).map fun (xs, rest) => (String.ofList xs, rest)
    else shortString cs
  | _ => shortString cs

end DecisionScore.Toml.Scalar
