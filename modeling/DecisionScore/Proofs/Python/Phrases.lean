import DecisionScore.Python.Parse
import DecisionScore.Proofs.Grammar.Bodies
import DecisionScore.Proofs.Grammar.Readings
import DecisionScore.Proofs.Python.Shape

/-! # Phrases of Python

What the part that was read for a symbol of the grammar looks like (`Stands`), and what trees the
steps of a production give (`Yields`).  Most rules are tame: nothing they give is an `elif` clause,
and all of it is shaped.  Whether a rule is tame is read off the rule itself (`isTame`), and so is
whether it always gives one tree (`isSingle`). -/

namespace DecisionScore.Python

open Grammar

/-- A symbol of the grammar of Python. -/
abbrev PhraseSymbol := Grammar.Symbol Token Nonterminal

/-- A step of the grammar of Python. -/
abbrev PhraseStep := Step PhraseSymbol Kind Role

/-! ### Parts -/

/-- The content of the repetition of `elif` clauses. -/
def elifs : PhraseRule := .role .alternative (nt .elifClause)

/-- What the trees below a nonterminal are like. -/
def IsPhrase (n : Nonterminal) (cs : List Node) : Prop :=
  match n with
  | .ifStatement => isBranch areClauses cs = true
  | .elifClause => isBranch arePlain cs = true
  | .expression | .primary => ∃ c, cs = [c] ∧ c.kind.isClause = false
  | _ => ∀ c ∈ cs, isElif c = false

/-- What the trees of a repetition are like. -/
def IsRepeated (r : PhraseRule) (c : Node) : Prop :=
  if r = elifs then isElif c = true ∨ isPlain c = true else isElif c = false

/-- The part stands for the symbol. -/
def Stands : PhraseSymbol → Part Kind Role → Prop
  | .token t, p => p.kind = t.kind? ∧ p.children = []
  | .ref n, p => p.kind = shown n ∧ areShaped p.children = true ∧ IsPhrase n p.children
  | .rep i, p => ∃ r, spec.contents[i]? = some r ∧ p.kind = none ∧ areShaped p.children = true ∧
      ∀ c ∈ p.children, IsRepeated r c

/-- The part is a comment or a line continuation. -/
def IsExtraLeaf (p : Part Kind Role) : Prop :=
  ∃ k, p.kind = some k ∧ k.isExtra = true ∧ p.children = []

/-- Steps give trees: one step after the other, with comments and line continuations between. -/
inductive Yields : List PhraseStep → List Node → Prop where
  | nil : Yields [] []
  | extra {ss : List PhraseStep} {ts : List Node} {k : Kind} (row : Nat) (text : String)
      (hk : k.isExtra = true) (h : Yields ss ts) : Yields ss (.node k none row text [] :: ts)
  | step {s : PhraseStep} {ss : List PhraseStep} {ts : List Node} {p : Part Kind Role}
      (hp : Stands s.symbol p) (h : Yields ss ts) :
      Yields (s :: ss) (p.trees s.role s.shownAs ++ ts)

theorem Yields.append {ss us : List PhraseStep} {ts : List Node} (h : Yields (ss ++ us) ts) :
    ∃ xs ys, ts = xs ++ ys ∧ Yields ss xs ∧ Yields us ys := by
  generalize hsteps : ss ++ us = ws at h
  induction h generalizing ss with
  | nil =>
      obtain ⟨rfl, rfl⟩ := List.append_eq_nil_iff.mp hsteps
      exact ⟨[], [], rfl, .nil, .nil⟩
  | extra row text hk _ ih =>
      obtain ⟨xs, ys, rfl, hxs, hys⟩ := ih hsteps
      exact ⟨_ :: xs, ys, rfl, .extra row text hk hxs, hys⟩
  | @step s ws' ts' p hp h ih =>
      cases ss with
      | nil =>
          rw [List.nil_append] at hsteps
          subst hsteps
          exact ⟨[], _, rfl, .nil, .step hp h⟩
      | cons s' ss =>
          obtain ⟨rfl, hrest⟩ := List.cons.inj hsteps
          obtain ⟨xs, ys, rfl, hxs, hys⟩ := ih hrest
          exact ⟨_, ys, (List.append_assoc _ _ _).symm, .step hp hxs, hys⟩

theorem isFiller_extra {k : Kind} (hk : k.isExtra = true) (row : Nat) (text : String) :
    isFiller (.node k none row text []) = true := by
  have hplain : k.isPlain = true := by
    cases k <;> simp_all [Kind.isExtra, Kind.isPlain]
  rw [isFiller, isPlain_eq]
  simp [Tree.kind, Tree.children, Tree.role, arePlain, hplain]

/-- No steps give nothing but fillers. -/
theorem Yields.of_nil {ts : List Node} (h : Yields [] ts) : ∀ c ∈ ts, isFiller c = true := by
  generalize hsteps : ([] : List PhraseStep) = ss at h
  induction h with
  | nil => simp
  | extra row text hk _ ih =>
      intro c hc
      rcases List.mem_cons.mp hc with rfl | hc
      · exact isFiller_extra hk row text
      · exact ih hsteps c hc
  | step => cases hsteps

/-- The trees stand in a list with nothing but fillers around them. -/
def AmongFillers (xs ts : List Node) : Prop :=
  ∃ fs gs, ts = fs ++ (xs ++ gs) ∧ (∀ c ∈ fs, isFiller c = true) ∧ ∀ c ∈ gs, isFiller c = true

/-- One step gives the trees of one part among fillers. -/
theorem Yields.of_single {s : PhraseStep} {ts : List Node} (h : Yields [s] ts) :
    ∃ p, Stands s.symbol p ∧ AmongFillers (p.trees s.role s.shownAs) ts := by
  generalize hsteps : [s] = ss at h
  induction h with
  | nil => cases hsteps
  | extra row text hk _ ih =>
      obtain ⟨p, hp, fs, gs, rfl, hfs, hgs⟩ := ih hsteps
      refine ⟨p, hp, _ :: fs, gs, rfl, ?_, hgs⟩
      intro c hc
      rcases List.mem_cons.mp hc with rfl | hc
      · exact isFiller_extra hk row text
      · exact hfs c hc
  | step hp h _ =>
      obtain ⟨rfl, rfl⟩ := List.cons.inj hsteps
      exact ⟨_, hp, [], _, rfl, by simp, h.of_nil⟩

/-! ### Trees of a part -/

/-- Whether nodes of the kind are `if` statements or `elif` clauses. -/
def Kind.isBranching (k : Kind) : Bool := k == .ifStatement || k == .elifClause

/-- A tree that is shaped and no `elif` clause. -/
def IsTameTree (c : Node) : Prop := isShaped c = true ∧ isElif c = false

theorem isShaped_inRole (c : Node) (r : Option Role) : isShaped (c.inRole r) = isShaped c := by
  cases c
  rfl

theorem isElif_inRole (c : Node) (r : Option Role) : isElif (c.inRole r) = isElif c := by
  cases c
  rfl

/-- A node that is neither an `if` statement nor an `elif` clause. -/
theorem isTameTree_node {k : Kind} {cs : List Node} (hk : k.isBranching = false)
    (hcs : ∀ c ∈ cs, IsTameTree c) (r : Option Role) (row : Nat) (text : String) :
    IsTameTree (.node k r row text cs) := by
  have hif : k ≠ .ifStatement := fun h => by simp [h, Kind.isBranching] at hk
  have helif : k ≠ .elifClause := fun h => by simp [h, Kind.isBranching] at hk
  refine ⟨?_, by simp [isElif, Tree.kind, helif]⟩
  rw [isShaped_eq, Bool.and_eq_true]
  refine ⟨?_, (areShaped_iff cs).mpr fun c hc => (hcs c hc).1⟩
  have hall : (cs.all fun c => !isElif c) = true :=
    List.all_eq_true.mpr fun c hc => by simp [(hcs c hc).2]
  split
  · rename_i h
    exact absurd h hif
  · rename_i h
    exact absurd h helif
  · exact hall

theorem isTameTree_labelFirst {cs : List Node} (hcs : ∀ c ∈ cs, IsTameTree c) (r : Option Role) :
    ∀ c ∈ labelFirst r cs, IsTameTree c := by
  cases cs with
  | nil => exact hcs
  | cons d cs =>
      cases r with
      | none => exact hcs
      | some r =>
          intro c hc
          rcases List.mem_cons.mp hc with rfl | hc
          · rw [IsTameTree, isShaped_inRole, isElif_inRole]
            exact hcs d List.mem_cons_self
          · exact hcs c (List.mem_cons_of_mem d hc)

/-- The trees of a part whose kind, if any, is no branching one. -/
theorem isTameTree_trees {p : Part Kind Role} (hcs : ∀ c ∈ p.children, IsTameTree c)
    {k : Option Kind} (hk : ∀ k' ∈ k <|> p.kind, k'.isBranching = false) (r : Option Role) :
    ∀ c ∈ p.trees r k, IsTameTree c := by
  unfold Part.trees
  split
  · rename_i k' hk'
    intro c hc
    obtain rfl := List.mem_singleton.mp hc
    exact isTameTree_node (hk k' hk') hcs r _ _
  · exact isTameTree_labelFirst hcs r

/-! ### Tame rules -/

/-- All trees of a step are shaped, and none is an `elif` clause. -/
def IsTameStep (s : PhraseStep) : Prop :=
  ∀ p, Stands s.symbol p → ∀ c ∈ p.trees s.role s.shownAs, IsTameTree c

/-- Whether a rule does without `elif` clauses; `inside` where it is shown as one node. -/
def isTame (inside : Bool) : PhraseRule → Bool
  | .blank | .token _ => true
  | .ref n => n != .elifClause && !(inside && n == .ifStatement)
  | .seq a b | .alt a b => isTame inside a && isTame inside b
  | .many1 r => r != elifs
  | .prec _ r | .assoc _ r | .prefer _ r | .role _ r => isTame inside r
  | .shownAs k r => !k.isBranching && isTame true r

theorem isBranching_kind? (t : Token) : ∀ k ∈ t.kind?, k.isBranching = false := by
  cases t <;> simp [Token.kind?, Kind.isBranching]

theorem isBranching_shown {n : Nonterminal} (hif : n ≠ .ifStatement) (helif : n ≠ .elifClause) :
    ∀ k ∈ shown n, k.isBranching = false := by
  cases n <;> simp_all [shown, Kind.isBranching]

/-- The trees below a phrase other than an `if` statement or an `elif` clause. -/
theorem IsPhrase.isTameTree {n : Nonterminal} {cs : List Node} (hif : n ≠ .ifStatement)
    (helif : n ≠ .elifClause) (hs : areShaped cs = true) (h : IsPhrase n cs) :
    ∀ c ∈ cs, IsTameTree c := by
  have hnone : ∀ c ∈ cs, isElif c = false := by
    unfold IsPhrase at h
    split at h
    · contradiction
    · contradiction
    · obtain ⟨d, rfl, hd⟩ := h
      intro c hc
      obtain rfl := List.mem_singleton.mp hc
      exact (Bool.or_eq_false_iff.mp hd).1
    · obtain ⟨d, rfl, hd⟩ := h
      intro c hc
      obtain rfl := List.mem_singleton.mp hc
      exact (Bool.or_eq_false_iff.mp hd).1
    · exact h
  exact fun c hc => ⟨(areShaped_iff cs).mp hs c hc, hnone c hc⟩

theorem Stands.isTameTree {x : PhraseSymbol} {p : Part Kind Role} (h : Stands x p)
    (hif : x ≠ .ref .ifStatement) (helif : x ≠ .ref .elifClause)
    (hrep : ∀ i, x = .rep i → spec.contents[i]? ≠ some elifs) :
    (∀ c ∈ p.children, IsTameTree c) ∧ ∀ k ∈ p.kind, k.isBranching = false := by
  cases x with
  | token t =>
      obtain ⟨hkind, hchildren⟩ := h
      rw [hkind, hchildren]
      exact ⟨by simp, isBranching_kind? t⟩
  | ref n =>
      obtain ⟨hkind, hs, hphrase⟩ := h
      have hn : n ≠ .ifStatement := fun h => hif (h ▸ rfl)
      have hn' : n ≠ .elifClause := fun h => helif (h ▸ rfl)
      rw [hkind]
      exact ⟨hphrase.isTameTree hn hn' hs, isBranching_shown hn hn'⟩
  | rep i =>
      obtain ⟨r, hr, hkind, hs, hrepeated⟩ := h
      have hne : r ≠ elifs := fun h => hrep i rfl (h ▸ hr)
      simp only [IsRepeated, if_neg hne] at hrepeated
      rw [hkind]
      exact ⟨fun c hc => ⟨(areShaped_iff _).mp hs c hc, hrepeated c hc⟩, by simp⟩

/-- An `if` statement is shaped where it is shown as itself. -/
theorem Stands.isTameTree_if {p : Part Kind Role} (h : Stands (.ref .ifStatement) p)
    (r : Option Role) : ∀ c ∈ p.trees r none, IsTameTree c := by
  obtain ⟨hkind, hs, hphrase⟩ := h
  unfold Part.trees
  rw [hkind]
  intro c hc
  obtain rfl := List.mem_singleton.mp hc
  refine ⟨?_, rfl⟩
  rw [isShaped_eq, Bool.and_eq_true]
  exact ⟨hphrase, hs⟩

/-- A symbol under marks that show it as nothing, or as a node of no branching kind. -/
theorem isTameStep_mark {x : PhraseSymbol} {m : Rule.Marks Kind Role}
    (hm : ∀ k ∈ m.shownAs, k.isBranching = false)
    (hif : x = .ref .ifStatement → m.shownAs = none) (helif : x ≠ .ref .elifClause)
    (hrep : ∀ i, x = .rep i → spec.contents[i]? ≠ some elifs) :
    IsTameStep ⟨x, m.prec, m.assoc, m.role, m.shownAs⟩ := by
  intro p hp
  by_cases hx : x = .ref .ifStatement
  · subst hx
    show ∀ c ∈ p.trees m.role m.shownAs, _
    rw [hif rfl]
    exact hp.isTameTree_if m.role
  · obtain ⟨hcs, hkind⟩ := hp.isTameTree hx helif hrep
    refine isTameTree_trees hcs ?_ m.role
    intro k hk
    cases hs : m.shownAs with
    | none => exact hkind k (by simpa [hs] using hk)
    | some k' => exact hm k (by simpa [hs] using hk)

theorem isCheck_isTame (number : PhraseRule → Nat) :
    Rule.IsCheck number (fun c => spec.contents[number c]? = some c) IsTameStep (fun m r =>
      isTame m.shownAs.isSome r = true ∧ ∀ k ∈ m.shownAs, k.isBranching = false) where
  token h := isTameStep_mark h.2 (by simp) (by simp) (by simp)
  ref {m n} h := by
    obtain ⟨h, hm⟩ := h
    simp only [isTame, Bool.and_eq_true, bne_iff_ne, Bool.not_eq_true', Bool.and_eq_false_iff] at h
    refine isTameStep_mark hm ?_ (by simpa using h.1) (by simp)
    intro hn
    rcases h.2 with hnone | hne
    · simpa using hnone
    · simp_all
  many1 {m c} hc h := by
    refine isTameStep_mark h.2 (by simp) (by simp) ?_
    intro i hi
    obtain rfl := Grammar.Symbol.rep.inj hi
    rw [hc]
    simpa [isTame] using h.1
  seq h := by
    obtain ⟨ha, hb⟩ := Bool.and_eq_true_iff.mp h.1
    exact ⟨⟨ha, h.2⟩, hb, h.2⟩
  alt h := by
    obtain ⟨ha, hb⟩ := Bool.and_eq_true_iff.mp h.1
    exact ⟨⟨ha, h.2⟩, hb, h.2⟩
  prec h := h
  assoc h := h
  prefer h := h
  role h := h
  shownAs h := by
    obtain ⟨hk, hr⟩ := Bool.and_eq_true_iff.mp h.1
    exact ⟨hr, by simpa using hk⟩

/-- The steps of a tame rule are tame. -/
theorem isTameStep_of_mem_bodies {number : PhraseRule → Nat} (r : PhraseRule)
    (m : Rule.Marks Kind Role) (h : isTame m.shownAs.isSome r = true)
    (hm : ∀ k ∈ m.shownAs, k.isBranching = false)
    (hnumber : ∀ c ∈ r.repeated, spec.contents[number c]? = some c) :
    ∀ b ∈ r.bodies number m, ∀ s ∈ b.steps, IsTameStep s :=
  (isCheck_isTame number).forall_steps ⟨h, hm⟩ hnumber

theorem isTameTree_extra {k : Kind} (hk : k.isExtra = true) (row : Nat) (text : String) :
    IsTameTree (.node k none row text []) := by
  have hbranching : k.isBranching = false := by
    cases k <;> simp_all [Kind.isExtra, Kind.isBranching]
  exact isTameTree_node hbranching (by simp) none row text

/-- Tame steps give tame trees. -/
theorem Yields.isTameTree {ss : List PhraseStep} {ts : List Node} (h : Yields ss ts)
    (hss : ∀ s ∈ ss, IsTameStep s) : ∀ c ∈ ts, IsTameTree c := by
  induction h with
  | nil => simp
  | extra row text hk _ ih =>
      intro c hc
      rcases List.mem_cons.mp hc with rfl | hc
      · exact isTameTree_extra hk row text
      · exact ih hss c hc
  | @step s ss ts p hp _ ih =>
      intro c hc
      rcases List.mem_append.mp hc with hc | hc
      · exact hss s List.mem_cons_self p hp c hc
      · exact ih (fun s' hs' => hss s' (List.mem_cons_of_mem s hs')) c hc

/-! ### Rules of one tree -/

/-- The trees of a step are just one, and it is no clause. -/
def IsSingleStep (s : PhraseStep) : Prop :=
  ∀ p, Stands s.symbol p → ∃ c, p.trees s.role s.shownAs = [c] ∧ c.kind.isClause = false

/-- Whether a rule always gives one tree that is no clause; `inside` where it is shown as one
node. -/
def isSingle (inside : Bool) : PhraseRule → Bool
  | .token t => inside || t.kind?.isSome
  | .ref n => inside || n == .expression || n == .primary || (shown n).any fun k => !k.isClause
  | .alt a b => isSingle inside a && isSingle inside b
  | .prec _ r | .assoc _ r | .prefer _ r | .role _ r => isSingle inside r
  | .shownAs k r => !k.isClause && isSingle true r
  | .blank | .seq _ _ | .many1 _ => false

theorem isClause_kind? (t : Token) : ∀ k ∈ t.kind?, k.isClause = false := by
  cases t <;> simp [Token.kind?, Kind.isClause]

theorem isSingleStep_node {x : PhraseSymbol} {m : Rule.Marks Kind Role}
    (h : ∀ p, Stands x p → ∃ k, (m.shownAs <|> p.kind) = some k ∧ k.isClause = false) :
    IsSingleStep ⟨x, m.prec, m.assoc, m.role, m.shownAs⟩ := by
  intro p hp
  obtain ⟨k, hk, hclause⟩ := h p hp
  refine ⟨.node k m.role p.row p.text p.children, ?_, hclause⟩
  unfold Part.trees
  rw [hk]

/-- The one tree of an expression, in the role it plays. -/
theorem Stands.trees_single {n : Nonterminal} {p : Part Kind Role}
    (hn : n = .expression ∨ n = .primary) (h : Stands (.ref n) p) (r : Option Role) :
    ∃ c, p.trees r none = [c] ∧ c.kind.isClause = false ∧ isShaped c = true ∧
      (r.isSome = true → c.role = r) := by
  obtain ⟨hkind, hs, hphrase⟩ := h
  have hhidden : shown n = none := by rcases hn with rfl | rfl <;> rfl
  have hone : ∃ c, p.children = [c] ∧ c.kind.isClause = false := by
    rcases hn with rfl | rfl <;> exact hphrase
  obtain ⟨c, hc, hclause⟩ := hone
  have hshaped : isShaped c = true := (areShaped_iff _).mp hs c (hc ▸ List.mem_singleton_self c)
  unfold Part.trees
  rw [hkind, hhidden, hc]
  cases r with
  | none => exact ⟨c, rfl, hclause, hshaped, by simp⟩
  | some r =>
      refine ⟨c.inRole (some r), rfl, ?_, ?_, ?_⟩
      · cases c
        exact hclause
      · rw [isShaped_inRole]
        exact hshaped
      · cases c
        exact fun _ => rfl

/-- The steps of a rule of one tree. -/
theorem isSingleStep_of_mem_bodies {number : PhraseRule → Nat} (r : PhraseRule)
    (m : Rule.Marks Kind Role) (h : isSingle m.shownAs.isSome r = true)
    (hm : ∀ k ∈ m.shownAs, k.isClause = false) :
    ∀ b ∈ r.bodies number m, ∃ s, b.steps = [s] ∧ IsSingleStep s := by
  induction r generalizing m with
  | blank => cases h
  | token t =>
      intro b hb
      obtain rfl := List.mem_singleton.mp hb
      refine ⟨_, rfl, isSingleStep_node ?_⟩
      intro p hp
      cases hs : m.shownAs with
      | some k => exact ⟨k, rfl, hm k hs⟩
      | none =>
          have hsome : t.kind?.isSome = true := by simpa [isSingle, hs] using h
          obtain ⟨k, hk⟩ := Option.isSome_iff_exists.mp hsome
          exact ⟨k, hp.1.trans hk, isClause_kind? t k hk⟩
  | ref n =>
      intro b hb
      obtain rfl := List.mem_singleton.mp hb
      refine ⟨_, rfl, ?_⟩
      cases hs : m.shownAs with
      | some k =>
          rw [← hs]
          exact isSingleStep_node fun p _ => ⟨k, by rw [hs]; rfl, hm k hs⟩
      | none =>
          by_cases hn : n = .expression ∨ n = .primary
          · intro p hp
            obtain ⟨c, hc, hclause, -⟩ := hp.trees_single hn m.role
            exact ⟨c, hc, hclause⟩
          · have hany : ((shown n).any fun k => !k.isClause) = true := by
              simpa [isSingle, hs, not_or.mp hn] using h
            cases hk : shown n with
            | none => simp [hk] at hany
            | some k =>
                rw [← hs]
                refine isSingleStep_node fun p hp => ⟨k, ?_, by simpa [hk] using hany⟩
                rw [hs]
                exact hp.1.trans hk
  | seq => cases h
  | alt a b iha ihb =>
      rw [isSingle, Bool.and_eq_true] at h
      intro c hc
      rcases List.mem_append.mp hc with hc | hc
      · exact iha m h.1 hm c hc
      · exact ihb m h.2 hm c hc
  | many1 => cases h
  | prec _ r ih => exact ih _ h hm
  | assoc _ r ih => exact ih _ h hm
  | prefer w r ih =>
      intro c hc
      obtain ⟨b, hb, rfl⟩ := List.mem_map.mp hc
      exact ih m h hm b hb
  | role _ r ih => exact ih _ h hm
  | shownAs k r ih =>
      rw [isSingle, Bool.and_eq_true] at h
      exact ih _ h.2 (by simpa using h.1)

/-! ### The rules -/

/-- All rules but two are tame. -/
theorem isTame_rule (n : Nonterminal) :
    (n == .ifStatement || n == .elifClause || isTame false (rule n)) = true := by
  cases n <;> decide

theorem isTame_repeated (n : Nonterminal) :
    ((rule n).repeated.all fun r => r == elifs || isTame false r) = true := by
  cases n <;> decide

theorem isSingle_rule {n : Nonterminal} (hn : n = .expression ∨ n = .primary) :
    isSingle false (rule n) = true := by
  rcases hn with rfl | rfl <;> decide

end DecisionScore.Python
