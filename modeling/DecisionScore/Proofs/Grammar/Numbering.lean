import DecisionScore.Proofs.Grammar.Bodies
import DecisionScore.Proofs.Grammar.Openings

/-! # Productions and rules

A production of a numbered grammar is a body of a rule, or a body of the content of a repetition
(`Spec.mem_productions`).  Where numbers are given without clashes (`Spec.WellNumbered`), the
number of a symbol determines the symbol, and a nonterminal that no rule refers to is in no
production. -/

namespace DecisionScore.Grammar

variable {τ ν κ ρ : Type}

/-! ### Inside a rule -/

namespace Rule

/-- What is repeated in the content of a repetition is repeated in the rule. -/
theorem mem_repeated_trans {r c d : Rule τ ν κ ρ} (hc : c ∈ r.repeated) (hd : d ∈ c.repeated) :
    d ∈ r.repeated := by
  induction r with
  | blank | token | ref => cases hc
  | seq a b iha ihb =>
      rcases List.mem_append.mp hc with hc | hc
      · exact List.mem_append_left _ (iha hc)
      · exact List.mem_append_right _ (ihb hc)
  | alt a b iha ihb =>
      rcases List.mem_append.mp hc with hc | hc
      · exact List.mem_append_left _ (iha hc)
      · exact List.mem_append_right _ (ihb hc)
  | many1 r ih =>
      rcases List.mem_append.mp hc with hc | hc
      · exact List.mem_append_left _ (ih hc)
      · obtain rfl := List.mem_singleton.mp hc
        exact List.mem_append_left _ hd
  | prec _ r ih | assoc _ r ih | prefer _ r ih | role _ r ih | shownAs _ r ih => exact ih hc

variable [DecidableEq ν] {n : ν}

/-- Whether a rule refers to a nonterminal. -/
def refersTo (n : ν) : Rule τ ν κ ρ → Bool
  | blank | token _ => false
  | ref m => m == n
  | seq a b | alt a b => refersTo n a || refersTo n b
  | many1 r | prec _ r | assoc _ r | prefer _ r | role _ r | shownAs _ r => refersTo n r

theorem refersTo_of_mem_repeated {r c : Rule τ ν κ ρ} (hc : c ∈ r.repeated)
    (h : c.refersTo n = true) : r.refersTo n = true := by
  induction r with
  | blank | token | ref => cases hc
  | seq a b iha ihb =>
      rw [refersTo, Bool.or_eq_true]
      exact (List.mem_append.mp hc).imp iha ihb
  | alt a b iha ihb =>
      rw [refersTo, Bool.or_eq_true]
      exact (List.mem_append.mp hc).imp iha ihb
  | many1 r ih =>
      rcases List.mem_append.mp hc with hc | hc
      · exact ih hc
      · obtain rfl := List.mem_singleton.mp hc
        exact h
  | prec _ r ih | assoc _ r ih | prefer _ r ih | role _ r ih | shownAs _ r ih => exact ih hc

theorem isCheck_refersTo (number : Rule τ ν κ ρ → Nat) (n : ν) :
    IsCheck number (fun _ => True) (fun s => s.symbol ≠ .ref n)
      (fun _ r => r.refersTo n = false) where
  token _ := by simp
  ref h := by simpa [refersTo] using h
  many1 _ _ := by simp
  seq h := by simpa [refersTo] using h
  alt h := by simpa [refersTo] using h
  prec h := h
  assoc h := h
  prefer h := h
  role h := h
  shownAs h := h

/-- A rule refers to the nonterminals in its bodies. -/
theorem refersTo_of_mem_bodies {number : Rule τ ν κ ρ → Nat} {r : Rule τ ν κ ρ} {m : Marks κ ρ}
    {b : Body (Symbol τ ν) κ ρ} {s : Step (Symbol τ ν) κ ρ} (hb : b ∈ r.bodies number m)
    (hs : s ∈ b.steps) (h : s.symbol = .ref n) : r.refersTo n = true := by
  cases hr : r.refersTo n with
  | true => rfl
  | false =>
      have hne := (isCheck_refersTo number n).forall_steps hr (fun _ _ => trivial) b hb s hs
      exact absurd h hne

end Rule

/-! ### Numbers -/

namespace Spec

/-- The number of a symbol. -/
def symbolIndex (g : Spec τ ν κ ρ) : Symbol τ ν → Sym
  | .token t => .token (g.tokenIndex t)
  | .ref n => .node (g.nonterminalIndex n)
  | .rep i => .node (g.nonterminals.length + i)

theorem number_eq (g : Spec τ ν κ ρ) (s : Step (Symbol τ ν) κ ρ) :
    g.number s = ⟨g.symbolIndex s.symbol, s.prec, s.assoc, s.role, s.shownAs⟩ := by
  obtain ⟨x, _, _, _, _⟩ := s
  cases x <;> rfl

/-- Numbers without clashes. -/
structure WellNumbered (g : Spec τ ν κ ρ) : Prop where
  token_injective : Function.Injective g.tokenIndex
  nonterminal : ∀ n, g.nonterminals[g.nonterminalIndex n]? = some n

namespace WellNumbered

variable {g : Spec τ ν κ ρ} (hg : g.WellNumbered)
include hg

theorem nonterminalIndex_lt (n : ν) : g.nonterminalIndex n < g.nonterminals.length :=
  (List.getElem?_eq_some_iff.mp (hg.nonterminal n)).1

theorem mem_nonterminals (n : ν) : n ∈ g.nonterminals := List.mem_of_getElem? (hg.nonterminal n)

/-- A symbol is known by its number. -/
theorem symbolIndex_injective : Function.Injective g.symbolIndex := by
  intro x y h
  cases x with
  | token t =>
      cases y with
      | token t' => rw [hg.token_injective (Sym.token.inj h)]
      | ref n' | rep j => cases h
  | ref n =>
      cases y with
      | token t' => cases h
      | ref n' =>
          have hn := hg.nonterminal n
          rw [Sym.node.inj h, hg.nonterminal n'] at hn
          rw [Option.some.inj hn]
      | rep j =>
          have hlt := hg.nonterminalIndex_lt n
          have hindex : g.nonterminalIndex n = g.nonterminals.length + j := Sym.node.inj h
          omega
  | rep i =>
      cases y with
      | token t' => cases h
      | ref n' =>
          have hlt := hg.nonterminalIndex_lt n'
          have hindex : g.nonterminals.length + i = g.nonterminalIndex n' := Sym.node.inj h
          omega
      | rep j =>
          have hindex : g.nonterminals.length + i = g.nonterminals.length + j := Sym.node.inj h
          rw [Nat.add_left_cancel hindex]

end WellNumbered

/-! ### Productions -/

/-- A repetition as two of itself. -/
def twice (i : Nat) : Body (Symbol τ ν) κ ρ :=
  ⟨[⟨.rep i, 0, none, none, none⟩, ⟨.rep i, 0, none, none, none⟩], 0⟩

/-- The production of a body. -/
def production (g : Spec τ ν κ ρ) (head : Nat) (b : Body (Symbol τ ν) κ ρ) : Production κ ρ :=
  ⟨head, (b.steps.map g.number).toArray, b.prefer⟩

theorem mem_productionsOf [DecidableEq κ] [DecidableEq ρ] {g : Spec τ ν κ ρ} {head : Nat}
    {bodies : List (Body (Symbol τ ν) κ ρ)} {p : Production κ ρ} :
    p ∈ g.productionsOf head bodies ↔ ∃ b ∈ bodies, g.production head b = p := by
  rw [productionsOf, List.mem_eraseDups, List.mem_map]
  rfl

theorem WellNumbered.ref_mem_steps {g : Spec τ ν κ ρ} (hg : g.WellNumbered) {n : ν}
    {head i : Nat} {b : Body (Symbol τ ν) κ ρ}
    (h : (g.production head b).symbol? i = some (.node (g.nonterminalIndex n))) :
    ∃ s ∈ b.steps, s.symbol = .ref n := by
  obtain ⟨s', hs', hsymbol⟩ := Option.map_eq_some_iff.mp h
  rw [production, List.getElem?_toArray, List.getElem?_map] at hs'
  obtain ⟨s, hs, rfl⟩ := Option.map_eq_some_iff.mp hs'
  rw [number_eq] at hsymbol
  exact ⟨s, List.mem_of_getElem? hs, hg.symbolIndex_injective hsymbol⟩

variable [DecidableEq τ] [DecidableEq ν] [DecidableEq κ] [DecidableEq ρ] {g : Spec τ ν κ ρ}

theorem mem_contents {c : Rule τ ν κ ρ} :
    c ∈ g.contents ↔ ∃ n ∈ g.nonterminals, c ∈ (g.rule n).repeated := by
  rw [contents, List.mem_eraseDups, List.mem_flatMap]

theorem mem_contents_of_repeated {c d : Rule τ ν κ ρ} (hc : c ∈ g.contents)
    (hd : d ∈ c.repeated) : d ∈ g.contents := by
  obtain ⟨n, hn, hc⟩ := mem_contents.mp hc
  exact mem_contents.mpr ⟨n, hn, Rule.mem_repeated_trans hc hd⟩

theorem getElem?_idxOf_contents {c : Rule τ ν κ ρ} (hc : c ∈ g.contents) :
    g.contents[g.contents.idxOf c]? = some c := by
  rw [List.getElem?_eq_getElem (List.idxOf_lt_length_iff.mpr hc), List.getElem_idxOf]

/-- The bodies of a rule, repetitions being numbered as in the grammar. -/
def bodiesOf (g : Spec τ ν κ ρ) (r : Rule τ ν κ ρ) : List (Body (Symbol τ ν) κ ρ) :=
  r.bodies (fun c => g.contents.idxOf c) {}

/-- Where a production comes from. -/
theorem mem_productions {p : Production κ ρ} (h : p ∈ g.productions) :
    (∃ n ∈ g.nonterminals, ∃ b ∈ g.bodiesOf (g.rule n), p = g.production (g.nonterminalIndex n) b) ∨
      ∃ i c, g.contents[i]? = some c ∧ ∃ b ∈ twice i :: g.bodiesOf c,
        p = g.production (g.nonterminals.length + i) b := by
  rcases List.mem_append.mp h with h | h
  · obtain ⟨n, hn, h⟩ := List.mem_flatMap.mp h
    obtain ⟨b, hb, rfl⟩ := mem_productionsOf.mp h
    exact .inl ⟨n, hn, b, hb, rfl⟩
  · obtain ⟨⟨c, i⟩, hc, h⟩ := List.mem_flatMap.mp h
    obtain ⟨b, hb, rfl⟩ := mem_productionsOf.mp h
    exact .inr ⟨i, c, List.mk_mem_zipIdx_iff_getElem?.mp hc, b, hb, rfl⟩

/-- A nonterminal that no rule refers to is in no production. -/
theorem WellNumbered.unused (hg : g.WellNumbered) {n : ν}
    (h : ∀ m, (g.rule m).refersTo n = false) :
    Unused g.productions.toArray (.node (g.nonterminalIndex n)) := by
  intro p hp i hi
  rcases mem_productions (List.mem_toArray.mp hp) with ⟨m, -, b, hb, rfl⟩ | ⟨j, c, hc, b, hb, rfl⟩
  · obtain ⟨s, hs, hsymbol⟩ := hg.ref_mem_steps hi
    have hrefers := Rule.refersTo_of_mem_bodies hb hs hsymbol
    rw [h m] at hrefers
    cases hrefers
  · obtain ⟨s, hs, hsymbol⟩ := hg.ref_mem_steps hi
    rcases List.mem_cons.mp hb with rfl | hb
    · have htwice : s.symbol = .rep j := by
        rcases List.mem_cons.mp hs with rfl | hs
        · rfl
        · obtain rfl := List.mem_singleton.mp hs
          rfl
      rw [htwice] at hsymbol
      cases hsymbol
    · obtain ⟨m, -, hm⟩ := mem_contents.mp (List.mem_of_getElem? hc)
      have hrefers := Rule.refersTo_of_mem_repeated hm (Rule.refersTo_of_mem_bodies hb hs hsymbol)
      rw [h m] at hrefers
      cases hrefers

/-! ### Kinds -/

theorem WellNumbered.shown_nonterminal (hg : g.WellNumbered) (n : ν) :
    (g.table.shown[g.nonterminalIndex n]?).join = g.shown n := by
  have hlt : g.nonterminalIndex n < (g.nonterminals.map g.shown).length := by
    rw [List.length_map]
    exact hg.nonterminalIndex_lt n
  show (((g.nonterminals.map g.shown ++ _).toArray)[_]?).join = _
  rw [List.getElem?_toArray, List.getElem?_append_left hlt, List.getElem?_map, hg.nonterminal n]
  rfl

theorem shown_repetition (g : Spec τ ν κ ρ) (i : Nat) :
    (g.table.shown[g.nonterminals.length + i]?).join = none := by
  show (((g.nonterminals.map g.shown ++ _).toArray)[_]?).join = _
  rw [List.getElem?_toArray, List.getElem?_append_right (by simp), List.getElem?_map]
  cases g.contents[g.nonterminals.length + i - (g.nonterminals.map g.shown).length]? <;> rfl

end Spec

end DecisionScore.Grammar
