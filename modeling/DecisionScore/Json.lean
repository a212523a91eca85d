/-! # JSON

A JSON text as a tree.  Numbers and strings keep the characters they are written with: a string is
what stands between its quotes, and `Json.encode` and `Json.decode` go between that and the text it
means.  `Json.pretty` writes a tree over several lines with an indentation of two. -/

namespace DecisionScore

/-- A JSON text. -/
inductive Json where
  | null
  | boolean (b : Bool)
  /-- A number as it is written. -/
  | number (raw : List Char)
  /-- A string as it is written between its quotes. -/
  | string (raw : List Char)
  | array (values : List Json)
  | object (entries : List (List Char × Json))
deriving Inhabited

namespace Json

/-! ### Strings -/

/-- A hexadecimal digit. -/
def hexDigit (n : Nat) : Char := if n < 10 then Char.ofNat (n + 48) else Char.ofNat (n + 87)

/-- The value of a hexadecimal digit. -/
def hexValue? (c : Char) : Option Nat :=
  if '0' ≤ c && c ≤ '9' then some (c.toNat - 48)
  else if 'a' ≤ c && c ≤ 'f' then some (c.toNat - 87)
  else if 'A' ≤ c && c ≤ 'F' then some (c.toNat - 55)
  else none

/-- A character as it is written within a string. -/
def encodeChar (c : Char) : List Char :=
  if c = '"' then ['\\', '"']
  else if c = '\\' then ['\\', '\\']
  else if c = '\x08' then ['\\', 'b']
  else if c = '\t' then ['\\', 't']
  else if c = '\n' then ['\\', 'n']
  else if c = '\x0c' then ['\\', 'f']
  else if c = '\r' then ['\\', 'r']
  else if c.toNat < 32 then
    ['\\', 'u', '0', '0', hexDigit (c.toNat / 16), hexDigit (c.toNat % 16)]
  else [c]

/-- A text as it is written within a string. -/
def encode (cs : List Char) : List Char := cs.flatMap encodeChar

/-- The number that four hexadecimal digits stand for. -/
def hex4? : List Char → Option (Nat × List Char)
  | a :: b :: c :: d :: rest => do
    let a ← hexValue? a
    let b ← hexValue? b
    let c ← hexValue? c
    let d ← hexValue? d
    some (((a * 16 + b) * 16 + c) * 16 + d, rest)
  | _ => none

/-- The character of a simple escape. -/
def simpleEscape? : Char → Option Char
  | '"' => some '"'
  | '\\' => some '\\'
  | '/' => some '/'
  | 'b' => some '\x08'
  | 'f' => some '\x0c'
  | 'n' => some '\n'
  | 'r' => some '\r'
  | 't' => some '\t'
  | _ => none

/-- The character of a `\u` escape, which may take a second escape to be complete. -/
def unicodeEscape? (cs : List Char) : Option (Char × List Char) :=
  match hex4? cs with
  | none => none
  | some (hi, rest) =>
    if 0xD800 ≤ hi && hi < 0xDC00 then
      match rest with
      | '\\' :: 'u' :: more =>
        match hex4? more with
        | some (lo, rest) =>
          if 0xDC00 ≤ lo && lo < 0xE000 then
            some (Char.ofNat (0x10000 + (hi - 0xD800) * 0x400 + (lo - 0xDC00)), rest)
          else none
        | none => none
      | _ => none
    else if 0xDC00 ≤ hi && hi < 0xE000 then none
    else some (Char.ofNat hi, rest)

/-- The text that is written within a string; at most `fuel` characters. -/
def decodeFrom : Nat → List Char → Option (List Char)
  | _, [] => some []
  | 0, _ :: _ => none
  | fuel + 1, c :: cs =>
    if c = '\\' then
      match cs with
      | 'u' :: rest => do
        let (x, rest) ← unicodeEscape? rest
        let xs ← decodeFrom fuel rest
        some (x :: xs)
      | e :: rest => do
        let x ← simpleEscape? e
        let xs ← decodeFrom fuel rest
        some (x :: xs)
      | [] => none
    else (decodeFrom fuel cs).map (c :: ·)

/-- The text that is written within a string. -/
def decode (raw : List Char) : Option (List Char) := decodeFrom raw.length raw

/-! ### Numbers -/

/-- A natural number. -/
def ofNat (n : Nat) : Json := .number (Nat.toDigits 10 n)

/-- The largest number that is read. -/
def maxNat : Nat := 18446744073709551615

/-- The natural number that is written as digits without superfluous zeros. -/
def natOf? (raw : List Char) : Option Nat :=
  if raw.isEmpty || !raw.all Char.isDigit || (raw.head? = some '0' && raw.length != 1) then none
  else
    let n := raw.foldl (fun n c => n * 10 + (c.toNat - 48)) 0
    if n ≤ maxNat then some n else none

/-! ### Writing -/

/-- The start of a line at a level. -/
def margin (level : Nat) : List Char := '\n' :: List.replicate (2 * level) ' '

/-- A string with its quotes. -/
def quoted (raw : List Char) : List Char := '"' :: raw ++ ['"']

mutual

/-- A tree, written at a level. -/
def prettyAt (level : Nat) : Json → List Char
  | .null => ['n', 'u', 'l', 'l']
  | .boolean true => ['t', 'r', 'u', 'e']
  | .boolean false => ['f', 'a', 'l', 's', 'e']
  | .number raw => raw
  | .string raw => quoted raw
  | .array [] => ['[', ']']
  | .array (v :: vs) =>
    '[' :: margin (level + 1) ++ prettyAt (level + 1) v ++ prettyRest (level + 1) vs
      ++ margin level ++ [']']
  | .object [] => ['{', '}']
  | .object ((k, v) :: es) =>
    '{' :: margin (level + 1) ++ quoted k ++ [':', ' '] ++ prettyAt (level + 1) v
      ++ prettyEntries (level + 1) es ++ margin level ++ ['}']

/-- The values of an array after the first one. -/
def prettyRest (level : Nat) : List Json → List Char
  | [] => []
  | v :: vs => ',' :: margin level ++ prettyAt level v ++ prettyRest level vs

/-- The entries of an object after the first one. -/
def prettyEntries (level : Nat) : List (List Char × Json) → List Char
  | [] => []
  | (k, v) :: es =>
    ',' :: margin level ++ quoted k ++ [':', ' '] ++ prettyAt level v ++ prettyEntries level es

end

/-- A tree, written over several lines. -/
def pretty (j : Json) : String := String.ofList (prettyAt 0 j)

end Json

end DecisionScore
