import DecisionScore.Grammar.Item
import DecisionScore.Tree

/-! # Parsing by following all readings

The parser keeps the readings of the text so far side by side.  A reading is a stack of finished
parts with the kernel reached after each.  At a token a reading completes productions and takes
the token as `Table.actions` says; where both are open it splits in two.  A reading that can do
neither is dropped.  Readings that agree in their kernels and in what is left to read become one,
the preferred one.  The text is accepted if a reading completes the start symbol. -/

namespace DecisionScore.Grammar

variable {κ ρ σ : Type}

/-- A token of the text. -/
structure Lexeme (κ : Type) where
  token : Nat
  row : Nat
  text : String
  /-- The kind of leaf it is shown as, if at all. -/
  kind : Option κ

/-- Where tokens come from: what is left to read is a `σ`. -/
structure Reader (σ κ : Type) where
  /-- The next token, given those the parser can go on with. -/
  read : TokenSet → σ → Option (Lexeme κ × σ)
  /-- How far reading has come. -/
  offset : σ → Nat
  /-- Whether the same is left to read. -/
  same : σ → σ → Bool
  /-- Whether a token may stand anywhere, as a part of its own. -/
  isExtra : Nat → Bool
  /-- A second reading of a token that cannot be used as it is. -/
  reread : Lexeme κ → Option (Lexeme κ)

/-- A finished part of the text. -/
structure Part (κ ρ : Type) where
  /-- The kind it is shown as; a part that is not shown hands its children on. -/
  kind : Option κ
  row : Nat
  text : String
  children : List (Tree κ ρ)
  isExtra : Bool

/-- A part on the stack, with the kernel reached after it. -/
structure Frame (κ ρ : Type) where
  kernel : Kernel
  part : Part κ ρ

/-- One reading of the text so far. -/
structure Reading (σ κ ρ : Type) where
  /-- The parts, the last one first. -/
  stack : List (Frame κ ρ)
  rest : σ
  prefer : Int

/-- Gives the first tree of a list a role. -/
def labelFirst (r : Option ρ) : List (Tree κ ρ) → List (Tree κ ρ)
  | [] => []
  | t :: ts => match r with
    | none => t :: ts
    | some _ => t.inRole r :: ts

/-- The trees a part stands for within its parent. -/
def Part.trees (p : Part κ ρ) (role : Option ρ) (shownAs : Option κ) : List (Tree κ ρ) :=
  match shownAs <|> p.kind with
  | some k => [.node k role p.row p.text p.children]
  | none => labelFirst role p.children

/-- The children of a production from its steps and the parts that were read for them. -/
def assemble : List (Step Sym κ ρ) → List (Part κ ρ) → List (Tree κ ρ)
  | _, [] => []
  | [], p :: ps => p.trees none none ++ assemble [] ps
  | s :: ss, p :: ps =>
    if p.isExtra then p.trees none none ++ assemble (s :: ss) ps
    else p.trees s.role s.shownAs ++ assemble ss ps

/-- Takes the last `n` parts off a stack, not counting extra ones; gives the parts in order and
the stack below. -/
def takeParts : Nat → List (Frame κ ρ) → List (Part κ ρ) → List (Part κ ρ) × List (Frame κ ρ)
  | 0, stack, acc => (acc, stack)
  | _ + 1, [], acc => (acc, [])
  | n + 1, f :: stack, acc =>
    if f.part.isExtra then takeParts (n + 1) stack (f.part :: acc)
    else takeParts n stack (f.part :: acc)

/-- What becomes of a reading at a token. -/
inductive Outcome (σ κ ρ : Type) where
  /-- It goes on. -/
  | live (r : Reading σ κ ρ)
  /-- It has read the whole text. -/
  | accepted (tree : Tree κ ρ) (prefer : Int)

section Steps

variable (t : Table κ ρ) (start : Kernel)

/-- The kernel a stack has reached. -/
def topKernel (stack : List (Frame κ ρ)) : Kernel :=
  match stack with
  | [] => start
  | f :: _ => f.kernel

/-- Puts a part on the stack after a symbol. -/
def pushPart (stack : List (Frame κ ρ)) (x : Sym) (p : Part κ ρ) : List (Frame κ ρ) :=
  ⟨t.advance (topKernel start stack) x, p⟩ :: stack

/-- Takes a token. -/
def shift (r : Reading σ κ ρ) (l : Lexeme κ) (rest : σ) : Reading σ κ ρ :=
  { r with stack := pushPart t start r.stack (.token l.token) ⟨l.kind, l.row, l.text, [], false⟩
           rest := rest }

/-- Takes a token that may stand anywhere. -/
def shiftExtra (r : Reading σ κ ρ) (l : Lexeme κ) (rest : σ) : Reading σ κ ρ :=
  { r with stack := ⟨topKernel start r.stack, ⟨l.kind, l.row, l.text, [], true⟩⟩ :: r.stack
           rest := rest }

/-- Completes a production.  Extra parts at its end are left to the enclosing one. -/
def reduce (r : Reading σ κ ρ) (p : Production κ ρ) : Reading σ κ ρ :=
  let trailing := r.stack.takeWhile (·.part.isExtra)
  let (parts, below) := takeParts p.steps.size (r.stack.dropWhile (·.part.isExtra)) []
  let row := match parts with
    | [] => 0
    | q :: _ => q.row
  let whole : Part κ ρ :=
    ⟨(t.shown[p.head]?).join, row, "", assemble p.steps.toList parts, false⟩
  let stack := pushPart t start below (.node p.head) whole
  let kernel := topKernel start stack
  { r with stack := trailing.map (fun f => { f with kernel }) ++ stack
           prefer := r.prefer + p.prefer }

/-- The tree of a reading that has completed the start symbol; extra parts around it become
children of the root. -/
def rootTree (root : κ) (stack : List (Frame κ ρ)) : Tree κ ρ :=
  .node root none 0 "" (stack.reverse.flatMap fun f =>
    if f.part.isExtra then f.part.trees none none else f.part.children)

/-- Follows a reading at a token until it takes the token, splits or is dropped. -/
def follow (rd : Reader σ κ) (root : κ) (rest : σ) :
    Nat → Reading σ κ ρ → Lexeme κ → List (Outcome σ κ ρ)
  | 0, _, _ => []
  | fuel + 1, r, l =>
    let act := t.actions (topKernel start r.stack) l.token
    let complete (i : Nat) : Option (Outcome σ κ ρ) :=
      (t.productions[i]?).map fun p =>
        let r' := reduce t start r p
        if p.head = t.start then .accepted (rootTree root r'.stack) r'.prefer else .live r'
    match act.reduces.reverse, act.shift with
    | [], true => [.live (shift t start r l rest)]
    | [], false =>
      if rd.isExtra l.token then [.live (shiftExtra start r l rest)]
      else match rd.reread l with
        | some l' => follow rd root rest fuel r l'
        | none => []
    | _, true => act.reduces.filterMap complete ++ [.live (shift t start r l rest)]
    | last :: others, false =>
      others.reverse.filterMap complete ++
        match complete last with
        | some (.live r') => follow rd root rest fuel r' l
        | some done => [done]
        | none => []

end Steps

/-- Whether two readings are in the same place with the same choices ahead. -/
def Reading.agrees (rd : Reader σ κ) (a b : Reading σ κ ρ) : Bool :=
  rd.same a.rest b.rest && a.stack.map (·.kernel) = b.stack.map (·.kernel)

/-- Adds a reading to a list of readings, unless one that agrees with it is preferred. -/
def addReading (rd : Reader σ κ) (r : Reading σ κ ρ) :
    List (Reading σ κ ρ) → List (Reading σ κ ρ)
  | [] => [r]
  | q :: qs =>
    if q.agrees rd r then (if q.prefer < r.prefer then r :: qs else q :: qs)
    else q :: addReading rd r qs

/-- The preferred one of two finished trees. -/
def better : Option (Tree κ ρ × Int) → Tree κ ρ → Int → Option (Tree κ ρ × Int)
  | none, t, p => some (t, p)
  | some (t, p), t', p' => if p < p' then some (t', p') else some (t, p)

/-- Moves the readings that are furthest behind over one token. -/
def round (t : Table κ ρ) (start : Kernel) (rd : Reader σ κ) (root : κ)
    (fuel : Nat) (readings : List (Reading σ κ ρ)) (best : Option (Tree κ ρ × Int)) :
    List (Reading σ κ ρ) × Option (Tree κ ρ × Int) :=
  let behind := readings.foldl (fun m r => min m (rd.offset r.rest))
    (match readings with
      | [] => 0
      | r :: _ => rd.offset r.rest)
  let outcomes := readings.flatMap fun r =>
    if rd.offset r.rest = behind then
      match rd.read (t.expected (topKernel start r.stack)) r.rest with
      | none => []
      | some (l, rest) => follow t start rd root rest fuel r l
    else [.live r]
  outcomes.foldl (fun (rs, best) o =>
    match o with
    | .live r => (addReading rd r rs, best)
    | .accepted tree p => (rs, better best tree p)) ([], best)

/-- Runs rounds until no reading is left. -/
def run (t : Table κ ρ) (start : Kernel) (rd : Reader σ κ) (root : κ)
    (inner : Nat) : Nat → List (Reading σ κ ρ) → Option (Tree κ ρ × Int) → Option (Tree κ ρ)
  | 0, _, best => best.map (·.1)
  | _ + 1, [], best => best.map (·.1)
  | fuel + 1, rs, best =>
    let (rs', best') := round t start rd root inner rs best
    run t start rd root inner fuel rs' best'

/-- The tree of a text, if some reading of it is complete.  `limit` bounds the number of tokens
and the number of productions completed at one token. -/
def parse? (t : Table κ ρ) (rd : Reader σ κ) (root : κ) (endToken : Nat)
    (limit : Nat) (text : σ) : Option (Tree κ ρ) :=
  run t (t.startKernel endToken) rd root limit limit [⟨[], text, 0⟩] none

end DecisionScore.Grammar
