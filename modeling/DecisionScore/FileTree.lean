import DecisionScore.Error
import DecisionScore.Path

/-! # File trees

What a run can see of the system: files, directories and other entries, and the directory it works
in.  A path is followed piece by piece from there, or from the root where it is absolute; every
piece but the first needs a directory to stand in, and a symbolic link stands for the path it
holds.  A walk lists the files below a directory and follows no links; it fails at the first
directory that may not be listed. -/

namespace DecisionScore

/-- What a name in a directory can stand for. -/
inductive Entry where
  | file (content : ByteArray)
  /-- A file that may not be read. -/
  | barred
  /-- A device or a pipe, which can be read but is no file. -/
  | stream (content : ByteArray)
  /-- A directory, which may be one that cannot be listed. -/
  | directory (entries : List (RawText × Entry)) (listable : Bool := true)
  /-- A symbolic link to a path. -/
  | link (target : Path)
deriving Inhabited

namespace Entry

/-- Whether an entry is a directory. -/
def isDirectory : Entry → Bool
  | directory _ _ => true
  | _ => false

/-- The bytes that are read from an entry. -/
def content : Entry → Except ReadFault ByteArray
  | file bytes => .ok bytes
  | stream bytes => .ok bytes
  | barred => .error .noPermission
  | directory _ listable => .error (if listable then .isADirectory else .noPermission)
  | link _ => .error .tooManyLinks

/-- The entry of a name in a directory. -/
def get? (entries : List (RawText × Entry)) (name : RawText) : Option Entry :=
  (entries.find? fun e => e.1 == name).map (·.2)

mutual

/-- The paths of the files at and below an entry that is found at a path, or the path of the first
directory that cannot be listed. -/
def files (path : Path) : Entry → Except Path (List Path)
  | file _ => .ok [path]
  | barred => .ok [path]
  | directory entries true => filesIn path entries
  | directory _ false => .error path
  | stream _ => .ok []
  | link _ => .ok []

/-- The paths of the files in and below a directory. -/
def filesIn (dir : Path) : List (RawText × Entry) → Except Path (List Path)
  | [] => .ok []
  | (name, e) :: rest => do
    let first ← files (dir.join name) e
    let others ← filesIn dir rest
    return first ++ others

end

/-- Changes the entry at the end of a path of names, which is an empty directory where there is
none.  Directories on the way are made where they are missing, and anything else on the way gives
way to a directory. -/
def alter (f : Entry → Entry) : List RawText → Entry → Entry
  | [], e => f e
  | name :: names, directory entries listable =>
    let below := alter f names ((get? entries name).getD (directory []))
    directory ((entries.filter fun e => e.1 != name) ++ [(name, below)]) listable
  | name :: names, _ => directory [(name, alter f names (directory []))]

end Entry

/-- The entries from the root down, and the place of the directory a run works in. -/
structure FileTree where
  root : Entry
  /-- The names on the way from the root to the working directory. -/
  here : List RawText
deriving Inhabited

namespace FileTree

/-- Goes one piece on from a place, which is given by its entry and the directories around it. -/
def step : List Entry → List UInt8 → Except ReadFault (List Entry)
  | .directory entries listable :: above, piece =>
    if piece = [] ∨ piece = [dot] then .ok (.directory entries listable :: above)
    else if piece = [dot, dot] then
      .ok (if above.isEmpty then [.directory entries listable] else above)
    else
      match Entry.get? entries ⟨piece⟩ with
      | some e => .ok (e :: .directory entries listable :: above)
      | none => .error .notFound
  | _ :: _, _ => .error .notADirectory
  | [], _ => .error .notFound

/-- Goes along pieces from a place.  `onLink` takes over at a link: it is given where the link
leads, the directories around it, and the pieces that are left. -/
def trace (onLink : Path → List Entry → List (List UInt8) → Except ReadFault (List Entry)) :
    List (List UInt8) → List Entry → Except ReadFault (List Entry)
  | [], place => .ok place
  | piece :: rest, place =>
    match step place piece with
    | .error fault => .error fault
    | .ok (.link target :: above) => onLink target above rest
    | .ok next => trace onLink rest next

/-- Goes along pieces from a place and through at most so many links. -/
def follow (root : Entry) : Nat → List (List UInt8) → List Entry → Except ReadFault (List Entry)
  | 0 => trace fun _ _ _ => .error .tooManyLinks
  | links + 1 => trace fun target above rest =>
    follow root links (target.pieces ++ rest) (if target.isAbsolute then [root] else above)

/-- How many links are followed for one path. -/
def linkLimit : Nat := 40

/-- The entry that pieces lead to from a place. -/
def lead (root : Entry) (links : Nat) (pieces : List (List UInt8)) (place : List Entry) :
    Except ReadFault Entry :=
  match follow root links pieces place with
  | .ok (e :: _) => .ok e
  | .ok [] => .error .notFound
  | .error fault => .error fault

/-- The place where a path starts. -/
def start (t : FileTree) (p : Path) : Except ReadFault (List Entry) :=
  if p.isAbsolute then .ok [t.root] else follow t.root linkLimit (t.here.map (·.bytes)) [t.root]

/-- The entry a path names. -/
def find (t : FileTree) (p : Path) : Except ReadFault Entry :=
  if p.raw.bytes.isEmpty then .error .notFound
  else do lead t.root linkLimit p.pieces (← t.start p)

/-- The bytes that are read at a path. -/
def contentAt (t : FileTree) (p : Path) : Except ReadFault ByteArray := do (← t.find p).content

/-- The text that is read at a path. -/
def read (t : FileTree) (p : Path) : Except ReadFault String := do
  match String.fromUTF8? (← t.contentAt p) with
  | some text => .ok text
  | none => .error .notText

/-- Whether a path names a directory. -/
def isDirectory (t : FileTree) (p : Path) : Bool :=
  match t.find p with
  | .ok e => e.isDirectory
  | .error _ => false

/-- The files below a directory; the path of each starts with that of the directory. -/
def filesBelow (t : FileTree) (dir : Path) : Except Path (List Path) :=
  match t.find dir with
  | .ok e => e.files dir
  | .error _ => .ok []

end FileTree

end DecisionScore
