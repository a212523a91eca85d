/-! # Texts as the system has them

Arguments and the names of files are strings of bytes.  Mostly they are the UTF-8 of a text, but
they need not be: `RawText.toText?` is the text if there is one, and `RawText.shown` always shows
something, with a replacement character for every part that is no character. -/

namespace DecisionScore

/-- A string of bytes that stands for a text. -/
structure RawText where
  bytes : List UInt8
deriving DecidableEq, Repr, Inhabited

namespace RawText

/-- The bytes of a text. -/
def ofText (s : String) : RawText := ⟨s.toList.flatMap String.utf8EncodeChar⟩

instance : Coe String RawText := ⟨ofText⟩

/-- The order is that of the bytes. -/
instance : Ord RawText := ⟨compareOn bytes⟩

instance : Std.TransOrd RawText := inferInstanceAs (Std.TransCmp (compareOn bytes))

instance : Std.LawfulEqOrd RawText where
  eq_of_compare {a b} h := by
    cases a
    cases b
    exact congrArg _ (Std.LawfulEqOrd.eq_of_compare h)

/-- The text that has these bytes, if there is one. -/
def toText? (r : RawText) : Option String := String.fromUTF8? r.bytes.toByteArray

/-- The character that bytes start with, if they start with one. -/
def firstChar? (bytes : List UInt8) : Option Char := (bytes.take 4).toByteArray.utf8DecodeChar? 0

/-- Whether a byte can go on with a character. -/
def isTrail (b : UInt8) : Bool := 0x80 ≤ b && b ≤ 0xbf

/-- Whether a character of three or four bytes can start with two given ones. -/
def isStart (lead second : UInt8) : Bool :=
  isTrail second &&
    if lead = 0xe0 then 0xa0 ≤ second
    else if lead = 0xed then second ≤ 0x9f
    else if lead = 0xf0 then 0x90 ≤ second
    else if lead = 0xf4 then second ≤ 0x8f
    else 0xe1 ≤ lead && lead ≤ 0xf3

/-- How many bytes at the front are the start of a character that breaks off; one where there is no
such start. -/
def brokenLength : List UInt8 → Nat
  | lead :: second :: rest =>
    if !isStart lead second then 1
    else if lead < 0xf0 then 2
    else if rest.head?.any isTrail then 3
    else 2
  | _ => 1

/-- The characters of bytes after the first few, with a replacement character for each start that
breaks off. -/
def shownFrom (skip : Nat) : List UInt8 → List Char
  | [] => []
  | b :: rest =>
    match skip with
    | n + 1 => shownFrom n rest
    | 0 =>
      match firstChar? (b :: rest) with
      | some c => c :: shownFrom (c.utf8Size - 1) rest
      | none => '\uFFFD' :: shownFrom (brokenLength (b :: rest) - 1) rest

/-- The text that is shown. -/
def shown (r : RawText) : String := String.ofList (shownFrom 0 r.bytes)

/-! ### Bytes of a text -/

theorem firstChar?_append (c : Char) (bytes : List UInt8) :
    firstChar? (String.utf8EncodeChar c ++ bytes) = some c := by
  have hlength : (String.utf8EncodeChar c).length ≤ 4 := by
    rw [String.length_utf8EncodeChar]
    exact c.utf8Size_le_four
  rw [firstChar?, List.take_append, List.take_of_length_le hlength, List.toByteArray_append]
  exact ByteArray.utf8DecodeChar?_utf8EncodeChar_append

theorem shownFrom_append (skipped bytes : List UInt8) :
    shownFrom skipped.length (skipped ++ bytes) = shownFrom 0 bytes := by
  induction skipped with
  | nil => rfl
  | cons b skipped ih => exact ih

theorem shownFrom_encode (c : Char) (bytes : List UInt8) :
    shownFrom 0 (String.utf8EncodeChar c ++ bytes) = c :: shownFrom 0 bytes := by
  have hfirst := firstChar?_append c bytes
  have hlength := String.length_utf8EncodeChar c
  have hpos := c.utf8Size_pos
  cases hencode : String.utf8EncodeChar c with
  | nil =>
    rw [hencode, List.length_nil] at hlength
    omega
  | cons b rest =>
    rw [hencode, List.cons_append] at hfirst
    rw [hencode, List.length_cons] at hlength
    have hskip : c.utf8Size - 1 = rest.length := by omega
    rw [List.cons_append, shownFrom, hfirst]
    simp only [hskip, shownFrom_append]

/-- A text is shown as it is. -/
@[simp] theorem shown_ofText (s : String) : (ofText s).shown = s := by
  have hchars : ∀ l : List Char, shownFrom 0 (l.flatMap String.utf8EncodeChar) = l := by
    intro l
    induction l with
    | nil => rfl
    | cons c l ih => rw [List.flatMap_cons, shownFrom_encode, ih]
  rw [shown, ofText, hchars, String.ofList_toList]

/-- The text is found again. -/
@[simp] theorem toText?_ofText (s : String) : (ofText s).toText? = some s := by
  have hbytes : (ofText s).bytes.toByteArray = s.toByteArray := String.utf8Encode_toList
  rw [toText?, hbytes]
  exact dif_pos s.isValidUTF8

/-- A start that breaks off is shown by one character, and a byte that starts nothing by its own. -/
example : (RawText.mk [0x61, 0xe2, 0x82, 0x41, 0xed, 0xa0, 0xff]).shown =
    "a\uFFFDA\uFFFD\uFFFD\uFFFD" := by decide

end RawText

end DecisionScore
