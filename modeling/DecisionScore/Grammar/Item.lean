import DecisionScore.Grammar.Table

/-! # Parser states

A state of the parser is a kernel: the productions under way, each with the place reached in it
and the tokens that may follow it.  `Kernel.advance` moves a kernel over a symbol,
`Kernel.expected` lists the tokens it can go on with, and `Kernel.actions` says what to do at a
token, with precedence and associativity deciding between readings. -/

namespace DecisionScore.Grammar

/-- A production under way: `dot` steps of it are done, and `lookahead` may follow it. -/
structure Item where
  production : Nat
  dot : Nat
  lookahead : TokenSet
deriving DecidableEq, Inhabited

/-- The productions under way, in increasing order of production and place. -/
abbrev Kernel := List Item

/-- What to do at a token: complete productions, or take the token, or both in turn. -/
structure Actions where
  reduces : List Nat
  shift : Bool
deriving Inhabited

/-- Whether `a` comes before `b` in a kernel. -/
def Item.before (a b : Item) : Bool :=
  a.production < b.production || (a.production == b.production && a.dot < b.dot)

/-- Both kernels together; items that agree up to their lookahead become one. -/
def Kernel.merge : Kernel → Kernel → Kernel
  | [], l => l
  | k, [] => k
  | a :: k, b :: l =>
    if a.before b then a :: merge k (b :: l)
    else if b.before a then b :: merge (a :: k) l
    else { a with lookahead := a.lookahead.union b.lookahead } :: merge k l
termination_by k l => k.length + l.length

namespace Table

variable {κ ρ : Type} (t : Table κ ρ)

/-- The steps of an item's production. -/
def stepsOf (i : Item) : Array (Step Sym κ ρ) :=
  match t.productions[i.production]? with
  | some p => p.steps
  | none => #[]

/-- The step an item goes on with. -/
def next? (i : Item) : Option (Step Sym κ ρ) := (t.stepsOf i)[i.dot]?

/-- The step an item has just done. -/
def last? (i : Item) : Option (Step Sym κ ρ) :=
  if i.dot = 0 then none else (t.stepsOf i)[i.dot - 1]?

/-- The precedence an item has gained by its last step. -/
def precOf (i : Item) : Int := ((t.last? i).map (·.prec)).getD 0

/-- The associativity an item has gained by its last step. -/
def assocOf (i : Item) : Option Assoc := (t.last? i).bind (·.assoc)

/-- The nonterminal of an item's production. -/
def headOf (i : Item) : Nat := ((t.productions[i.production]?).map (·.head)).getD 0

/-- The tokens that may follow the symbol an item goes on with. -/
def followOf (i : Item) : TokenSet :=
  match (t.stepsOf i)[i.dot + 1]? with
  | some s => t.starters s.symbol
  | none => i.lookahead

/-- Adds what may follow an expected nonterminal. -/
def addExpected (n : Nat) (follow : TokenSet) : List (Nat × TokenSet) → List (Nat × TokenSet)
  | [] => [(n, follow)]
  | (m, f) :: rest =>
    if m = n then (m, f.union follow) :: rest else (m, f) :: addExpected n follow rest

/-- The nonterminals a kernel expects, each with the tokens that may follow it. -/
def expectedNodes (k : Kernel) : List (Nat × TokenSet) :=
  k.foldl (fun acc i =>
    match t.next? i with
    | some ⟨.node n, _, _, _, _⟩ => addExpected n (t.followOf i) acc
    | _ => acc) []

/-- The kernel after symbol `x`. -/
def advance (k : Kernel) (x : Sym) : Kernel :=
  let direct := k.filterMap fun i =>
    match t.next? i with
    | some s => if s.symbol = x then some { i with dot := i.dot + 1 } else none
    | none => none
  (t.expectedNodes k).foldl (fun acc (n, follow) =>
    let opened := match t.openings[n]? with
      | some m => m.getD x []
      | none => []
    acc.merge (opened.map fun o =>
      ⟨o.production, 1, if o.inherits then o.lookahead.union follow else o.lookahead⟩)) direct

/-- The tokens a kernel can go on with. -/
def expected (k : Kernel) : TokenSet :=
  k.foldl (fun acc i =>
    match t.next? i with
    | some s => acc.union (t.starters s.symbol)
    | none => acc.union i.lookahead) .empty

/-- The largest of a list of precedences. -/
def highest : List Int → Int
  | [] => 0
  | [p] => p
  | p :: ps => max p (highest ps)

/-- What to do at a token.  Of the completed productions those of highest precedence count.
Where the token could be taken as well, the repetition that could grow in two ways grows to the
left; else the higher precedence decides, then associativity; what is left open is tried both
ways. -/
def actions (k : Kernel) (token : Nat) : Actions :=
  let done := k.filter fun i => (t.next? i).isNone && i.lookahead.contains token
  let moving := k.filter fun i =>
    match t.next? i with
    | some s => (t.starters s.symbol).contains token
    | none => false
  let top := highest (done.map t.precOf)
  let reduces := done.filter fun i => t.precOf i == top
  let complete := reduces.map (·.production)
  if reduces.isEmpty then ⟨[], !moving.isEmpty⟩
  else if moving.isEmpty then ⟨complete, false⟩
  else
    let rivals := moving.filter fun i => i.dot != 0
    let heads := ((rivals ++ done).map t.headOf).eraseDups
    if heads.length = 1 && heads.all (t.firstRepetition ≤ ·) then ⟨complete, false⟩
    else
      let more := rivals.any fun i => top < t.precOf i
      let less := rivals.any fun i => t.precOf i < top
      if more && !less then ⟨[], true⟩
      else if less && !more then ⟨complete, false⟩
      else if more then ⟨complete, true⟩
      else if reduces.all (fun i => t.assocOf i = some .left) then ⟨complete, false⟩
      else if reduces.all (fun i => t.assocOf i = some .right) then ⟨[], true⟩
      else ⟨complete, true⟩

/-- The kernel before the first token. -/
def startKernel (endToken : Nat) : Kernel :=
  (t.productions.zipIdx.filter fun (p, _) => p.head == t.start).toList.map fun (_, i) =>
    ⟨i, 0, .single endToken⟩

end Table

end DecisionScore.Grammar
