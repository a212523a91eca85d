import DecisionScore.Command

/-! # The program

The outer layer: it looks up what the arguments name, runs the command on that, and prints what
comes of it. -/

namespace DecisionScore.Main

/-- Reads what is at a place: a file, or a directory with all that is below it.  Links below a
directory are left out, and what is no file is read only where it is named itself. -/
partial def load (named : Bool) (place : String) : IO (Option Entry) := do
  try
    let found ← IO.FS.realPath place
    match (← found.metadata).type with
    | .dir =>
      match ← found.readDir.toBaseIO with
      | .error _ => return some (.directory [] false)
      | .ok listed =>
        let mut entries := #[]
        for e in listed do
          let below := found / e.fileName
          if (← IO.FS.realPath below) == below then
            if let some entry ← load false below.toString then
              entries := entries.push (RawText.ofText e.fileName, entry)
        return some (.directory entries.toList)
    | .file =>
      match ← (IO.FS.readBinFile found).toBaseIO with
      | .error _ => return some .barred
      | .ok bytes => return some (.file bytes)
    | _ => return some (.stream (← if named then IO.FS.readBinFile found else pure .empty))
  catch _ => return none

/-- Whether there is a directory at a place. -/
def isDirectory (place : String) : IO Bool := do
  try (← IO.FS.realPath place).isDir
  catch _ => return false

/-- The names on the way from the root to where a piece leads. -/
def descend (names : List RawText) (piece : List UInt8) : List RawText :=
  if piece = [] ∨ piece = [dot] then names
  else if piece = [dot, dot] then names.dropLast
  else names ++ [⟨piece⟩]

/-- Adds what a path names to a tree, and what the path leads through. -/
def addPath (tree : FileTree) (path : Path) : IO FileTree := do
  let mut root := tree.root
  let mut names := if path.isAbsolute then [] else tree.here
  let mut place := if path.isAbsolute then "/" else "."
  for piece in path.pieces do
    place := place ++ "/" ++ (RawText.mk piece).shown
    names := descend names piece
    if ← isDirectory place then root := root.alter id names
    else if let some entry ← load true place then root := root.alter (fun _ => entry) names
  if let some entry ← load true place then root := root.alter (fun _ => entry) names
  return { tree with root := root }

/-- The tree of what the arguments name. -/
def loadTree (r : Request) : IO FileTree := do
  let here := ((← IO.currentDir).toString.splitOn "/").filter (· != "")
  let names := here.map RawText.ofText
  let mut tree : FileTree := ⟨Entry.alter id names (.directory []), names⟩
  for path in (r.config.getD ⟨Config.fileName⟩) :: r.paths do
    tree ← addPath tree path
  return tree

/-- Whether a variable is set, and if so whether it is on. -/
def isOn? (name : String) : IO (Option Bool) := do
  return (← IO.getEnv name).map (· != "0")

/-- Whether colours are wanted. -/
def wantsColor : IO Bool := do
  if (← isOn? "CLICOLOR_FORCE") == some true then return true
  if (← isOn? "NO_COLOR").isSome then return false
  return (← isOn? "CLICOLOR").getD true && (← (← IO.getStdout).isTty)

end DecisionScore.Main

open DecisionScore

/-- Runs the program. -/
def main (arguments : List String) : IO UInt32 := do
  let args := arguments.map RawText.ofText
  let request := (Command.readArguments args).toOption.getD {}
  let start ← IO.monoMsNow
  let tree ← Main.loadTree request
  let stdin ← if request.stdin then (← IO.getStdin).readBinToEnd else pure .empty
  let color ← Main.wantsColor
  let outcome ← IO.lazyPure fun _ => Command.run ⟨tree, stdin, color⟩ args
  let elapsed := (← IO.monoMsNow) - start
  IO.print (outcome.stdout.render (toString elapsed))
  IO.eprint outcome.stderr
  return outcome.code.toUInt32
