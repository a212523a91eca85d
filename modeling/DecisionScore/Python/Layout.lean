import DecisionScore.Python.Cursor
import DecisionScore.Python.Token

/-! # Layout and strings

The tokens that depend on what was read before: the end of a statement, a deeper or shallower
indentation, and the parts of a string.  `Layout` keeps the open indentations and strings, and
`Layout.scan` finds the next such token, given which ones the grammar can use. -/

namespace DecisionScore.Python

/-- How an open string is written. -/
structure Delimiter where
  /-- The character that ends it. -/
  quote : Char
  isFormat : Bool
  isRaw : Bool
  isBytes : Bool
  isTriple : Bool
deriving DecidableEq, Repr, Inhabited

/-- The open indentations and strings, innermost first. -/
structure Layout where
  /-- The columns of the open blocks, each kept as a byte. -/
  indents : List UInt8
  delimiters : List Delimiter
  inFormat : Bool
deriving DecidableEq, Repr, Inhabited

/-- A token with the places where it starts and ends, and the layout after it. -/
structure Scanned where
  token : Token
  first : Cursor
  last : Cursor
  layout : Layout

namespace Layout

/-- Nothing is open. -/
def initial : Layout := ⟨[], [], false⟩

/-- The column of the innermost block. -/
def column (l : Layout) : Nat :=
  match l.indents with
  | [] => 0
  | n :: _ => n.toNat

/-- Closes the innermost string. -/
def closeString (l : Layout) : Layout :=
  { l with delimiters := l.delimiters.drop 1, inFormat := false }

/-- What a scan inside a string comes to. -/
inductive Inside where
  /-- A token that ends at the given place. -/
  | found (token : Token) (last : Cursor)
  /-- No token. -/
  | none
  /-- The text has ended within the string. -/
  | ended (last : Cursor)

/-- Steps over a backslash in a raw string, with the quote, backslash or line break after it. -/
def skipRawEscape (d : Delimiter) (c : Cursor) : Cursor :=
  let c := c.next
  let c := if !c.atEnd && (c.peek = d.quote || c.peek = '\\') then c.next else c
  if !c.atEnd && c.peek = '\r' then c.next.skipIf '\n' else c.skipIf '\n'

theorem length_skipRawEscape_le (d : Delimiter) (c : Cursor) :
    (skipRawEscape d c).rest.length ≤ c.next.rest.length := by
  have h1 (e : Cursor) := e.length_next_le
  have h2 (e : Cursor) := e.length_skipIf_le '\n'
  simp only [skipRawEscape]
  split <;> split
  · exact Nat.le_trans (h2 _) (Nat.le_trans (h1 _) (h1 _))
  · exact Nat.le_trans (h2 _) (Nat.le_trans (h1 _) (Nat.le_refl _))
  · exact Nat.le_trans (h2 _) (h1 _)
  · exact h2 _

/-- Reads on in a string, from a place at which `started` says whether there is content before
it.  Content ends before a backslash that may be an escape, a brace of a format string, or the
closing quotes. -/
def content (d : Delimiter) (started : Bool) (c : Cursor) : Inside :=
  let contentTo (last : Cursor) : Inside := if started then .found .stringContent last else .none
  let x := c.peek
  if x = '\x00' then .ended c
  else if (x = '{' || x = '}') && d.isFormat then contentTo c
  else if x = '\\' then
    if d.isRaw then content d started (skipRawEscape d c)
    else if d.isBytes then
      let y := c.next.peek
      if y = 'N' || y = 'u' || y = 'U' then content d true c.next.next.next
      else contentTo c
    else contentTo c
  else if x = d.quote then
    if d.isTriple then
      if c.next.peek = d.quote then
        if c.next.next.peek = d.quote then
          if started then .found .stringContent c else .found .stringEnd (c.skip 3)
        else .found .stringContent (c.skip 2)
      else .found .stringContent c.next
    else if started then .found .stringContent c
    else .found .stringEnd c.next
  else if x = '\n' && started && !d.isTriple then .none
  else content d true c.next
termination_by c.rest.length
decreasing_by
  all_goals have hc := Cursor.length_next_lt (by assumption : ¬c.peek = '\x00')
  · have := length_skipRawEscape_le d c; omega
  · have := c.next.length_next_le; have := c.next.next.length_next_le; omega
  · exact hc

/-- The blank space, comments and line joins before a token. -/
structure Gap where
  /-- The place after it. -/
  last : Cursor
  /-- Whether a line has ended. -/
  brokeLine : Bool
  /-- The column reached. -/
  column : Nat
  /-- The column of the first comment on a line of its own. -/
  firstComment : Option Nat

/-- The place of the next line break, or of the end of the text. -/
def skipLine (c : Cursor) : Cursor :=
  if c.peek = '\x00' || c.peek = '\n' then c else skipLine c.next
termination_by c.rest.length
decreasing_by
  rename_i h
  simp only [Bool.or_eq_true, decide_eq_true_eq, not_or] at h
  exact Cursor.length_next_lt h.1

theorem length_skipLine_le (c : Cursor) : (skipLine c).rest.length ≤ c.rest.length := by
  fun_induction skipLine c with
  | case1 => exact Nat.le_refl _
  | case2 c _ ih => exact Nat.le_trans ih c.length_next_le

theorem length_skipLine_lt {c : Cursor} (h : c.peek = '#') :
    (skipLine c).next.rest.length < c.rest.length := by
  have hs : skipLine c = skipLine c.next := by rw [skipLine]; simp [h]
  rw [hs]
  have h1 := length_skipLine_le c.next
  have h2 := (skipLine c.next).length_next_le
  have h3 := Cursor.length_next_lt (c := c) (by simp [h])
  omega

/-- Reads blank space; `none` where a comment follows a token on its line, or a backslash joins
no lines. -/
def gap (g : Gap) : Option Gap :=
  let c := g.last
  let x := c.peek
  if c.atEnd then some { g with column := 0, brokeLine := true }
  else if x = '\n' then gap { g with last := c.next, brokeLine := true, column := 0 }
  else if x = ' ' then gap { g with last := c.next, column := g.column + 1 }
  else if x = '\r' || x = '\x0c' then gap { g with last := c.next, column := 0 }
  else if x = '\t' then gap { g with last := c.next, column := g.column + 8 }
  else if x = '#' then
    if !g.brokeLine then none
    else gap { g with
      last := (skipLine c).next
      column := 0
      firstComment := g.firstComment <|> some g.column }
  else if x = '\\' then
    let e := c.next.skipIf '\r'
    if e.atEnd || e.peek = '\n' then gap { g with last := e.next } else none
  else some g
termination_by g.last.rest.length
decreasing_by
  all_goals have hc := Cursor.length_next_lt_of_atEnd (by assumption : ¬g.last.atEnd = true)
  · exact hc
  · exact hc
  · exact hc
  · exact hc
  · exact length_skipLine_lt (by assumption)
  · have h1 := g.last.next.length_skipIf_le '\r'
    have h2 := (g.last.next.skipIf '\r').length_next_le
    exact Nat.lt_of_le_of_lt (Nat.le_trans h2 h1) hc

/-- The opening of a string: letters in front of the quotes, then the quotes. -/
def opening (d : Delimiter) (c : Cursor) : Option (Delimiter × Cursor) :=
  let x := c.peek
  if x = 'f' || x = 'F' then opening { d with isFormat := true } c.next
  else if x = 'r' || x = 'R' then opening { d with isRaw := true } c.next
  else if x = 'b' || x = 'B' then opening { d with isBytes := true } c.next
  else if x = 'u' || x = 'U' then opening d c.next
  else if x = '`' then some ({ d with quote := x }, c.next)
  else if x = '\'' || x = '"' then
    if c.next.peek = x && c.next.next.peek = x then
      some ({ d with quote := x, isTriple := true }, c.skip 3)
    else some ({ d with quote := x }, c.next)
  else none
termination_by c.rest.length
decreasing_by
  all_goals
    apply Cursor.length_next_lt
    rename_i h
    intro h0
    simp only [show x = '\x00' from h0] at h
    revert h
    decide

/-- A token without extent, for a line break or a change of indentation. -/
def outline (t : Token) (c : Cursor) (l : Layout) : Scanned := ⟨t, c, c, l⟩

/-- Line breaks, indentation and the opening of strings. -/
def scanOutside (l : Layout) (accepts : Token → Bool) (c : Cursor) : Option Scanned := do
  let g ← gap ⟨c, false, 0, none⟩
  let inBrackets := accepts .rbrace || accepts .rparen || accepts .rbracket
  let x := g.last.peek
  let opensString := accepts .stringStart && (x = '"' || x = '\'' || x = '`')
  let commentBelow := match g.firstComment with
    | none => true
    | some n => n < l.column
  if g.brokeLine && accepts .indent && l.column < g.column then
    some (outline .indent c { l with indents := g.column.toUInt8 :: l.indents })
  else if g.brokeLine && (accepts .dedent || (!accepts .newline && !opensString && !inBrackets))
      && g.column < l.column && !l.inFormat && commentBelow then
    some (outline .dedent c { l with indents := l.indents.drop 1 })
  else if g.brokeLine && accepts .newline then some (outline .newline c l)
  else if g.firstComment.isNone && accepts .stringStart then
    let (d, last) ← opening ⟨'\x00', false, false, false, false⟩ g.last
    some ⟨.stringStart, g.last, last,
      { l with delimiters := d :: l.delimiters, inFormat := d.isFormat }⟩
  else none

/-- The next token of layout or of a string. -/
def scan (l : Layout) (accepts : Token → Bool) (c : Cursor) : Option Scanned :=
  match l.delimiters with
  | [] => scanOutside l accepts c
  | d :: _ =>
    if accepts .escapeInterpolation && d.isFormat && (c.peek = '{' || c.peek = '}') then
      if c.next.peek = c.peek then some ⟨.escapeInterpolation, c, c.skip 2, l⟩ else none
    else if accepts .stringContent then
      match content d false c with
      | .found .stringEnd last => some ⟨.stringEnd, c, last, l.closeString⟩
      | .found t last => some ⟨t, c, last, l⟩
      | .none => none
      | .ended last => scanOutside l accepts last
    else scanOutside l accepts c

end Layout

end DecisionScore.Python
