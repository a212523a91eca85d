import DecisionScore.Text.Blank
import DecisionScore.Text.Raw

/-! # Paths

A path is a string of bytes with slashes.  What it names is the list of its components: empty pieces
and inner dots do not count, while a dot at the front is a component of its own.  Paths are ordered
and told apart by their components, so `a//b` and `a/b` are the same path, and `a/b` comes before
`a.py`.  Two paths that are not the same may still be shown alike. -/

namespace DecisionScore

/-- A path as it is written. -/
structure Path where
  raw : RawText
deriving DecidableEq, Repr, Inhabited

/-- The byte between the pieces of a path. -/
def slash : UInt8 := 0x2f

/-- The byte before an extension. -/
def dot : UInt8 := 0x2e

/-- A component of a path. -/
inductive Component where
  /-- The slash at the front of an absolute path. -/
  | root
  /-- A dot at the front. -/
  | here
  /-- Two dots. -/
  | parent
  | name (s : RawText)
deriving DecidableEq, Repr

namespace Component

/-- The place of the kind of a component in the order. -/
def rank : Component → Nat
  | root => 0
  | here => 1
  | parent => 2
  | name _ => 3

/-- The name, where the component is one. -/
def label : Component → RawText
  | name s => s
  | _ => ⟨[]⟩

theorem eq_of_rank_of_label {a b : Component} (h : a.rank = b.rank) (k : a.label = b.label) :
    a = b := by
  cases a <;> cases b <;> simp_all [rank, label]

/-- Components are ordered by kind, and names by their bytes. -/
instance : Ord Component := ⟨compareLex (compareOn rank) (compareOn label)⟩

instance : Std.TransOrd Component :=
  inferInstanceAs (Std.TransCmp (compareLex (compareOn rank) (compareOn label)))

instance : Std.LawfulEqOrd Component where
  eq_of_compare {a b} h := by
    have h : (compare a.rank b.rank).then (compare a.label b.label) = .eq := h
    rw [Ordering.then_eq_eq] at h
    exact eq_of_rank_of_label (Std.LawfulEqOrd.eq_of_compare h.1)
      (Std.LawfulEqOrd.eq_of_compare h.2)

/-- The component of a piece that is not at the front. -/
def ofPiece? (piece : List UInt8) : Option Component :=
  if piece = [] ∨ piece = [dot] then none
  else if piece = [dot, dot] then some parent
  else some (name ⟨piece⟩)

end Component

namespace Path

/-- The text that is shown for a path. -/
def text (p : Path) : String := p.raw.shown

/-- The pieces of a path between slashes. -/
def pieces (p : Path) : List (List UInt8) := Text.pieces slash p.raw.bytes

/-- Whether a path starts at the root. -/
def isAbsolute (p : Path) : Bool := p.raw.bytes.head? == some slash

/-- The components of a path. -/
def components (p : Path) : List Component :=
  let rest := p.pieces.filterMap Component.ofPiece?
  if p.isAbsolute then .root :: rest
  else if p.pieces.head? = some [dot] then .here :: rest
  else rest

/-- Paths are ordered by their components. -/
def order (p q : Path) : Ordering := compare p.components q.components

/-- Whether a path does not come after another one. -/
def le (p q : Path) : Bool := (p.order q).isLE

/-- Whether two paths have the same components. -/
def same (p q : Path) : Bool := p.components == q.components

/-- The name at the end of a path, if it ends in one. -/
def fileName? (p : Path) : Option RawText :=
  match p.components.getLast? with
  | some (.name s) => some s
  | _ => none

/-- What follows the last dot of a name.  A dot at the front starts no extension. -/
def extensionOf? (name : RawText) : Option RawText :=
  match name.bytes.reverse.span (· != dot) with
  | (_, []) => none
  | (_, [_]) => none
  | (ext, _ :: _ :: _) => some ⟨ext.reverse⟩

/-- The extension of a path, empty where it has none that is a text. -/
def extension (p : Path) : String :=
  ((p.fileName?.bind extensionOf?).bind RawText.toText?).getD ""

/-- A name within a directory. -/
def join (dir : Path) (name : RawText) : Path :=
  if dir.raw.bytes.getLast? = some slash then ⟨⟨dir.raw.bytes ++ name.bytes⟩⟩
  else ⟨⟨dir.raw.bytes ++ slash :: name.bytes⟩⟩

/-- The list without paths that are the same as the one before them. -/
def dropRepeats : List Path → List Path
  | [] => []
  | [p] => [p]
  | p :: q :: rest =>
    if p.same q then dropRepeats (p :: rest) else p :: dropRepeats (q :: rest)
termination_by l => l.length

/-- The paths in order, each of them once and in its first spelling. -/
def sorted (l : List Path) : List Path := dropRepeats (l.mergeSort le)

end Path

end DecisionScore
