/-! # Grammar rules

A rule describes the phrases of one nonterminal: tokens and references to other nonterminals,
put together by sequence, choice and repetition, with marks for precedence, associativity, the
role a part plays in its parent and the kind it is shown under.  `Rule.bodies` lists the flat
right-hand sides a rule stands for; a repetition becomes a symbol of its own, so that the bodies
are finite (`Rule.repeated` collects the contents of all repetitions). -/

namespace DecisionScore.Grammar

/-- How a tie between two readings of equal precedence is decided. -/
inductive Assoc where
  | left
  | right
deriving DecidableEq, Repr

/-- A rule over tokens `τ`, nonterminals `ν`, kinds of node `κ` and roles of a part `ρ`. -/
inductive Rule (τ ν κ ρ : Type) where
  | blank
  | token (t : τ)
  | ref (n : ν)
  | seq (first second : Rule τ ν κ ρ)
  | alt (left right : Rule τ ν κ ρ)
  /-- One or more. -/
  | many1 (content : Rule τ ν κ ρ)
  | prec (level : Int) (rule : Rule τ ν κ ρ)
  | assoc (side : Assoc) (rule : Rule τ ν κ ρ)
  /-- Preference among whole readings of an ambiguous text. -/
  | prefer (weight : Int) (rule : Rule τ ν κ ρ)
  | role (r : ρ) (rule : Rule τ ν κ ρ)
  /-- Shows the part as a node of kind `k`. -/
  | shownAs (k : κ) (rule : Rule τ ν κ ρ)
deriving DecidableEq, Repr

variable {τ ν κ ρ : Type}

/-- A symbol of a flat right-hand side; `rep` is the repetition of the content of that number. -/
inductive Symbol (τ ν : Type) where
  | token (t : τ)
  | ref (n : ν)
  | rep (i : Nat)
deriving DecidableEq, Repr

/-- A symbol of a right-hand side with the marks that apply to it. -/
structure Step (σ κ ρ : Type) where
  symbol : σ
  prec : Int
  assoc : Option Assoc
  role : Option ρ
  shownAs : Option κ
deriving DecidableEq, Repr

/-- A flat right-hand side. -/
structure Body (σ κ ρ : Type) where
  steps : List (Step σ κ ρ)
  /-- The preference of the reading that uses this body. -/
  prefer : Int
deriving DecidableEq, Repr

namespace Rule

/-- The rules one after another. -/
def chain : List (Rule τ ν κ ρ) → Rule τ ν κ ρ
  | [] => blank
  | [r] => r
  | r :: rs => seq r (chain rs)

/-- Any one of the rules. -/
def oneOf : List (Rule τ ν κ ρ) → Rule τ ν κ ρ
  | [] => blank
  | [r] => r
  | r :: rs => alt r (oneOf rs)

/-- The rule or nothing. -/
def opt (r : Rule τ ν κ ρ) : Rule τ ν κ ρ := alt r blank

/-- Any number of times, also none. -/
def many (r : Rule τ ν κ ρ) : Rule τ ν κ ρ := alt (many1 r) blank

/-- One or more, with `sep` between neighbours. -/
def sep1 (r sep : Rule τ ν κ ρ) : Rule τ ν κ ρ := seq r (many (seq sep r))

/-- The marks that enclose a part of a rule. -/
structure Marks (κ ρ : Type) where
  prec : Int := 0
  assoc : Option Assoc := none
  role : Option ρ := none
  shownAs : Option κ := none

/-- Of two preferences the one that says more. -/
def stronger (a b : Int) : Int := if a.natAbs < b.natAbs then b else a

/-- Two right-hand sides one after the other. -/
def joinBodies {σ : Type} (a b : Body σ κ ρ) : Body σ κ ρ :=
  ⟨a.steps ++ b.steps, stronger a.prefer b.prefer⟩

/-- The flat right-hand sides of a rule, under the marks around it; `number` numbers the
contents of repetitions. -/
def bodies (number : Rule τ ν κ ρ → Nat) (m : Marks κ ρ) :
    Rule τ ν κ ρ → List (Body (Symbol τ ν) κ ρ)
  | blank => [⟨[], 0⟩]
  | token t => [⟨[⟨.token t, m.prec, m.assoc, m.role, m.shownAs⟩], 0⟩]
  | ref n => [⟨[⟨.ref n, m.prec, m.assoc, m.role, m.shownAs⟩], 0⟩]
  | seq a b =>
    let tails := bodies number m b
    (bodies number m a).flatMap fun x => tails.map fun y => joinBodies x y
  | alt a b => bodies number m a ++ bodies number m b
  | many1 c => [⟨[⟨.rep (number c), m.prec, m.assoc, m.role, m.shownAs⟩], 0⟩]
  | prec p r => bodies number { m with prec := p } r
  | assoc s r => bodies number { m with assoc := some s } r
  | prefer w r => (bodies number m r).map fun b => { b with prefer := stronger b.prefer w }
  | role f r => bodies number { m with role := some f } r
  | shownAs k r => bodies number { m with shownAs := some k } r

/-- The contents of all repetitions in a rule, innermost first. -/
def repeated : Rule τ ν κ ρ → List (Rule τ ν κ ρ)
  | blank | token _ | ref _ => []
  | seq a b | alt a b => repeated a ++ repeated b
  | many1 c => repeated c ++ [c]
  | prec _ r | assoc _ r | prefer _ r | role _ r | shownAs _ r => repeated r

end Rule

end DecisionScore.Grammar
