import Std.Data.HashMap
import DecisionScore.Grammar.Rule
import DecisionScore.Grammar.TokenSet

/-! # Numbered grammars

A grammar given by rules is numbered once: tokens, nonterminals and repetitions become numbers,
rules become flat productions, and two tables are filled in.  `Table.first` has the tokens a
nonterminal can start with.  `Table.openings` says, for a nonterminal that is expected and a
symbol that is seen, which productions may have been started, and what may follow each. -/

namespace DecisionScore.Grammar

/-- A symbol by number. -/
inductive Sym where
  | token (i : Nat)
  | node (n : Nat)
deriving DecidableEq, Hashable, Repr, Inhabited

/-- A grammar as it is written down. -/
structure Spec (τ ν κ ρ : Type) where
  tokenIndex : τ → Nat
  nonterminals : List ν
  nonterminalIndex : ν → Nat
  rule : ν → Rule τ ν κ ρ
  /-- The kind of node a nonterminal is shown as, if it is shown at all. -/
  shown : ν → Option κ
  start : ν

/-- A flat production with numbered symbols. -/
structure Production (κ ρ : Type) where
  head : Nat
  steps : Array (Step Sym κ ρ)
  prefer : Int
deriving DecidableEq

/-- The symbol at a place of a production. -/
def Production.symbol? {κ ρ : Type} (p : Production κ ρ) (i : Nat) : Option Sym :=
  (p.steps[i]?).map (·.symbol)

/-- A production that may have been started: the tokens that may follow it for reasons of its
own, and whether what follows the expected nonterminal may follow it too. -/
structure Opening where
  production : Nat
  lookahead : TokenSet
  inherits : Bool
deriving Inhabited

/-- A numbered grammar with its derived tables. -/
structure Table (κ ρ : Type) where
  productions : Array (Production κ ρ)
  /-- Kinds by nonterminal. -/
  shown : Array (Option κ)
  /-- Numbers from here on are repetitions. -/
  firstRepetition : Nat
  first : Array TokenSet
  openings : Array (Std.HashMap Sym (List Opening))
  start : Nat

/-- Applies `f` until nothing changes, at most `fuel` times. -/
def settle {α : Type} [BEq α] (f : α → α) : Nat → α → α
  | 0, a => a
  | fuel + 1, a => let b := f a; if b == a then a else settle f fuel b

namespace Spec

variable {τ ν κ ρ : Type} [DecidableEq τ] [DecidableEq ν] [DecidableEq κ] [DecidableEq ρ]

/-- The distinct contents of all repetitions. -/
def contents (g : Spec τ ν κ ρ) : List (Rule τ ν κ ρ) :=
  (g.nonterminals.flatMap fun n => (g.rule n).repeated).eraseDups

/-- Replaces a symbol by its number. -/
def number (g : Spec τ ν κ ρ) (s : Step (Symbol τ ν) κ ρ) : Step Sym κ ρ :=
  let symbol := match s.symbol with
    | .token t => .token (g.tokenIndex t)
    | .ref n => .node (g.nonterminalIndex n)
    | .rep i => .node (g.nonterminals.length + i)
  ⟨symbol, s.prec, s.assoc, s.role, s.shownAs⟩

/-- The productions of a list of bodies. -/
def productionsOf (g : Spec τ ν κ ρ) (head : Nat) (bodies : List (Body (Symbol τ ν) κ ρ)) :
    List (Production κ ρ) :=
  (bodies.map fun b => ⟨head, (b.steps.map g.number).toArray, b.prefer⟩).eraseDups

/-- All productions: those of the nonterminals, then those of the repetitions.  A repetition is
two repetitions, or its content once. -/
def productions (g : Spec τ ν κ ρ) : List (Production κ ρ) :=
  let contents := g.contents
  let expand := Rule.bodies (fun c => contents.idxOf c) {}
  let ofRules := g.nonterminals.flatMap fun n =>
    g.productionsOf (g.nonterminalIndex n) (expand (g.rule n))
  let ofContents := contents.zipIdx.flatMap fun (c, i) =>
    let twice : Body (Symbol τ ν) κ ρ :=
      ⟨[⟨.rep i, 0, none, none, none⟩, ⟨.rep i, 0, none, none, none⟩], 0⟩
    g.productionsOf (g.nonterminals.length + i) (twice :: expand c)
  ofRules ++ ofContents

end Spec

namespace Table

variable {κ ρ : Type}

/-- The tokens a symbol can start with, given those of the nonterminals. -/
def firstOf (first : Array TokenSet) : Sym → TokenSet
  | .token i => .single i
  | .node n => first.getD n .empty

/-- Adds to each nonterminal the tokens its productions start with. -/
def growFirst (productions : Array (Production κ ρ)) (first : Array TokenSet) : Array TokenSet :=
  productions.foldl (fun acc p =>
    match p.steps[0]? with
    | some s => acc.modify p.head (·.union (firstOf acc s.symbol))
    | none => acc) first

/-- How a nonterminal is reached at the left edge of another one: the tokens that may follow it
there, and whether what follows the outer one may follow it too. -/
abbrev Reach := Array (Option (TokenSet × Bool))

/-- Adds one way of reaching a nonterminal. -/
def Reach.add (r : Reach) (n : Nat) (follow : TokenSet) (inherits : Bool) : Reach :=
  r.modify n fun
    | none => some (follow, inherits)
    | some (f, i) => some (f.union follow, i || inherits)

/-- Puts an element in front of a list that does not have it. -/
def addNew {α : Type} [BEq α] (a : α) (l : List α) : List α := if l.contains a then l else a :: l

/-- The nonterminals at the left edge of each nonterminal's productions, each with the tokens
that may follow it, or `none` where it ends the production. -/
def leftEdges (productions : Array (Production κ ρ)) (first : Array TokenSet) :
    Array (List (Nat × Option TokenSet)) :=
  productions.foldl (fun acc (p : Production κ ρ) =>
    match (p.symbol? 0) with
    | some (Sym.node n) => acc.modify p.head (addNew (n, (p.symbol? 1).map (firstOf first)))
    | _ => acc) (first.map fun _ => [])

/-- One round of following left edges. -/
def growReach (edges : Array (List (Nat × Option TokenSet))) (r : Reach) : Reach :=
  r.zipIdx.foldl (fun acc (entry, n) =>
    match entry with
    | none => acc
    | some _ => (edges.getD n []).foldl (fun acc (m, follow) =>
        match follow, acc.getD n none with
        | some f, _ => acc.add m f false
        | none, some (f, i) => acc.add m f i
        | none, none => acc) acc) r

/-- The productions that may have been started where nonterminal `n` is expected, by their first
symbol. -/
def openingsOf (productions : Array (Production κ ρ)) (reach : Reach) :
    Std.HashMap Sym (List Opening) :=
  productions.zipIdx.foldr (fun (p, i) acc =>
    match reach.getD p.head none, p.steps[0]? with
    | some (lookahead, inherits), some s =>
      acc.insert s.symbol (⟨i, lookahead, inherits⟩ :: acc.getD s.symbol [])
    | _, _ => acc) ∅

/-- The table of a list of productions over `size` nonterminals. -/
def build (productions : Array (Production κ ρ)) (shown : Array (Option κ))
    (firstRepetition start : Nat) : Table κ ρ :=
  let size := shown.size
  let first := settle (growFirst productions) size (Array.replicate size .empty)
  let edges := leftEdges productions first
  let openings := (Array.range size).map fun n =>
    let seed : Reach := (Array.replicate size none).modify n fun _ => some (.empty, true)
    openingsOf productions (settle (growReach edges) size seed)
  { productions, shown, firstRepetition, first, openings, start }

/-- The tokens a symbol can start with. -/
def starters (t : Table κ ρ) (s : Sym) : TokenSet := firstOf t.first s

end Table

/-- The numbered grammar of a specification. -/
def Spec.table {τ ν κ ρ : Type} [DecidableEq τ] [DecidableEq ν] [DecidableEq κ] [DecidableEq ρ]
    (g : Spec τ ν κ ρ) : Table κ ρ :=
  let shown := g.nonterminals.map g.shown ++ g.contents.map fun _ => none
  .build g.productions.toArray shown.toArray g.nonterminals.length (g.nonterminalIndex g.start)

end DecisionScore.Grammar
