/-! # Places in a text

A cursor is the rest of the text with the number of characters and of line breaks before it. -/

namespace DecisionScore.Python

/-- A place in a text. -/
structure Cursor where
  rest : List Char
  offset : Nat
  row : Nat
deriving Inhabited

namespace Cursor

/-- The start of a text. -/
def start (text : List Char) : Cursor := ⟨text, 0, 0⟩

/-- The next character; the null character stands for the end of the text. -/
def peek (c : Cursor) : Char :=
  match c.rest with
  | [] => '\x00'
  | x :: _ => x

/-- Whether the text is at its end. -/
def atEnd (c : Cursor) : Bool := c.rest.isEmpty

/-- One character further. -/
def next (c : Cursor) : Cursor :=
  match c.rest with
  | [] => c
  | x :: xs => ⟨xs, c.offset + 1, if x = '\n' then c.row + 1 else c.row⟩

theorem length_next_le (c : Cursor) : c.next.rest.length ≤ c.rest.length := by
  cases h : c.rest <;> simp [next, h]

/-- Stepping over a character leaves less to read. -/
theorem length_next_lt {c : Cursor} (h : c.peek ≠ '\x00') :
    c.next.rest.length < c.rest.length := by
  cases hr : c.rest with
  | nil => simp [peek, hr] at h
  | cons x xs => simp [next, hr]

/-- Away from the end, stepping leaves less to read. -/
theorem length_next_lt_of_atEnd {c : Cursor} (h : ¬c.atEnd = true) :
    c.next.rest.length < c.rest.length := by
  cases hr : c.rest with
  | nil => simp [atEnd, hr] at h
  | cons x xs => simp [next, hr]

/-- Some characters further. -/
def skip (c : Cursor) : Nat → Cursor
  | 0 => c
  | n + 1 => c.next.skip n

/-- One character further if the next one is `x`. -/
def skipIf (c : Cursor) (x : Char) : Cursor := if c.peek = x && !c.atEnd then c.next else c

theorem length_skipIf_le (c : Cursor) (x : Char) : (c.skipIf x).rest.length ≤ c.rest.length := by
  unfold skipIf
  split
  · exact length_next_le c
  · exact Nat.le_refl _

end Cursor

end DecisionScore.Python
