import DecisionScore.Proofs.Python.Nesting

/-! # Comments and line continuations in a tree

Comments and line continuations may stand between any two parts of a text.  A tree is `Tidy` if
they are leaves in it and play no role.  The trees that the parser makes are tidy
(`tidy_of_parse?`): what is read as an extra part gets no role of its own, and where a phrase that
is not shown hands its role on to its first tree, that tree is never an extra one, since the phrase
starts with a part of its own that is shown (`startsOr`). -/

namespace DecisionScore.Python

open Grammar

/-- Comments and line continuations are leaves and play no role. -/
def Tidy (t : Node) : Prop :=
  ∀ m ∈ nodesFrom t, m.kind.isExtra = true → m.role = none ∧ m.children = []

instance (t : Node) : Decidable (Tidy t) := inferInstanceAs (Decidable (∀ m ∈ nodesFrom t, _))

theorem tidy_node {k : Kind} {r : Option Role} {cs : List Node}
    (h : k.isExtra = true → r = none ∧ cs = []) (hcs : ∀ c ∈ cs, Tidy c) (row : Nat)
    (text : String) : Tidy (.node k r row text cs) := by
  intro m hm
  rw [nodesFrom_eq] at hm
  rcases List.mem_cons.mp hm with rfl | hm
  · exact h
  · obtain ⟨c, hc, hm⟩ := List.mem_flatMap.mp hm
    exact hcs c hc m hm

theorem mem_nodesFrom_self (n : Node) : n ∈ nodesFrom n := by
  rw [nodesFrom_eq]
  exact List.mem_cons_self

theorem mem_nodesFrom_of_child {n c m : Node} (hc : c ∈ n.children) (hm : m ∈ nodesFrom c) :
    m ∈ nodesFrom n := by
  rw [nodesFrom_eq]
  exact List.mem_cons_of_mem n (List.mem_flatMap.mpr ⟨c, hc, hm⟩)

theorem Tidy.child {n c : Node} (h : Tidy n) (hc : c ∈ n.children) : Tidy c :=
  fun m hm => h m (mem_nodesFrom_of_child hc hm)

theorem Tidy.bare {n : Node} (h : Tidy n) (hn : n.kind.isExtra = true) :
    n.role = none ∧ n.children = [] := h n (mem_nodesFrom_self n) hn

theorem tidy_extra {k : Kind} (row : Nat) (text : String) : Tidy (.node k none row text []) :=
  tidy_node (fun _ => ⟨rfl, rfl⟩) (by simp) row text

/-- A node in another role, which no extra one has. -/
theorem Tidy.inRole {c : Node} (h : Tidy c) (hc : c.kind.isExtra = false) (r : Option Role) :
    Tidy (c.inRole r) := by
  obtain ⟨k, r', row, text, cs⟩ := c
  refine tidy_node (fun hk => ?_) (fun d hd => h.child hd) row text
  have hc : k.isExtra = false := hc
  rw [hc] at hk
  cases hk

/-! ### Where a phrase starts -/

/-- There is a first tree, and it is neither a comment nor a line continuation. -/
def IsHeaded (cs : List Node) : Prop := ∃ c ∈ cs.head?, c.kind.isExtra = false

/-- Whether a phrase starts with a tree if it is not shown itself. -/
def isSolid : Nonterminal → Bool
  | .matchBlock => false
  | _ => true

/-- Whether all phrases of a rule start with a tree; `inside` where the rule is shown as one node,
and `blank` where a phrase may also be empty. -/
def startsOr (inside blank : Bool) : PhraseRule → Bool
  | .blank => blank
  | .token t => inside || t.kind?.any fun k => !k.isExtra
  | .ref n => inside || (shown n).isSome || isSolid n
  | .seq a b => startsOr inside false a || (startsOr inside true a && startsOr inside blank b)
  | .alt a b => startsOr inside blank a && startsOr inside blank b
  | .many1 c => inside || startsOr false false c
  | .prec _ r | .assoc _ r | .prefer _ r | .role _ r => startsOr inside blank r
  | .shownAs k r => !k.isExtra && startsOr true blank r

/-- The part is read for the symbol and has tidy trees; where the symbol says so, it starts with
one. -/
def IsTidyPart : PhraseSymbol → Part Kind Role → Prop
  | .token t, p => p.kind = t.kind? ∧ p.children = []
  | .ref n, p => p.kind = shown n ∧ (∀ c ∈ p.children, Tidy c) ∧
      (shown n = none → isSolid n = true → IsHeaded p.children)
  | .rep i, p => p.kind = none ∧ (∀ c ∈ p.children, Tidy c) ∧
      ∀ r, spec.contents[i]? = some r → startsOr false false r = true → IsHeaded p.children

/-! ### Trees of a part -/

theorem isExtra_shown (n : Nonterminal) : ∀ k ∈ shown n, k.isExtra = false := by
  cases n <;> simp [shown, Kind.isExtra]

theorem kind_inRole (c : Node) (r : Option Role) : (c.inRole r).kind = c.kind := by
  cases c
  rfl

theorem isHeaded_labelFirst {cs : List Node} (h : IsHeaded cs) (r : Option Role) :
    IsHeaded (labelFirst r cs) := by
  obtain ⟨c, hc, hk⟩ := h
  cases cs with
  | nil => cases hc
  | cons d cs =>
      obtain rfl : d = c := Option.some.inj hc
      cases r with
      | none => exact ⟨d, rfl, hk⟩
      | some r => exact ⟨d.inRole (some r), rfl, by rw [kind_inRole, hk]⟩

theorem tidy_labelFirst {cs : List Node} {r : Option Role} (hcs : ∀ c ∈ cs, Tidy c)
    (h : r.isSome = true → cs = [] ∨ IsHeaded cs) : ∀ c ∈ labelFirst r cs, Tidy c := by
  cases cs with
  | nil => exact hcs
  | cons d cs =>
      cases r with
      | none => exact hcs
      | some r =>
          obtain ⟨e, he, hk⟩ : IsHeaded (d :: cs) := (h rfl).resolve_left (by simp)
          obtain rfl : d = e := Option.some.inj he
          intro c hc
          rcases List.mem_cons.mp hc with rfl | hc
          · exact (hcs d List.mem_cons_self).inRole hk _
          · exact hcs c (List.mem_cons_of_mem d hc)

/-- A part that is shown, or else starts with a tree. -/
theorem isHeaded_trees {p : Part Kind Role} {k : Option Kind}
    (hk : ∀ k' ∈ k <|> p.kind, k'.isExtra = false)
    (h : (k <|> p.kind) = none → IsHeaded p.children) (r : Option Role) :
    IsHeaded (p.trees r k) := by
  unfold Part.trees
  split
  · rename_i k' hk'
    exact ⟨_, rfl, hk k' hk'⟩
  · rename_i hnone
    exact isHeaded_labelFirst (h hnone) r

theorem tidy_trees {p : Part Kind Role} {k : Option Kind} {r : Option Role}
    (hcs : ∀ c ∈ p.children, Tidy c) (hk : ∀ k' ∈ k <|> p.kind, k'.isExtra = false)
    (h : (k <|> p.kind) = none → r.isSome = true → p.children = [] ∨ IsHeaded p.children) :
    ∀ c ∈ p.trees r k, Tidy c := by
  unfold Part.trees
  split
  · rename_i k' hk'
    intro c hc
    obtain rfl := List.mem_singleton.mp hc
    refine tidy_node (fun hextra => ?_) hcs _ _
    rw [hk k' hk'] at hextra
    cases hextra
  · rename_i hnone
    exact tidy_labelFirst hcs (h hnone)

/-! ### Rules that start with a tree -/

/-- The trees of a step start with one that is no extra one. -/
def IsSolidStep (s : PhraseStep) : Prop :=
  ∀ p, IsTidyPart s.symbol p → IsHeaded (p.trees s.role s.shownAs)

/-- All trees of a step are tidy. -/
def IsTidyStep (s : PhraseStep) : Prop :=
  ∀ p, IsTidyPart s.symbol p → ∀ c ∈ p.trees s.role s.shownAs, Tidy c

/-- A step whose parts are shown, or start with a tree. -/
theorem isSolidStep_mark {x : PhraseSymbol} {m : Rule.Marks Kind Role}
    (hm : ∀ k ∈ m.shownAs, k.isExtra = false)
    (h : m.shownAs.isSome = true ∨ ∀ p, IsTidyPart x p →
      (∀ k ∈ p.kind, k.isExtra = false) ∧ (p.kind = none → IsHeaded p.children)) :
    IsSolidStep ⟨x, m.prec, m.assoc, m.role, m.shownAs⟩ := by
  intro p hp
  cases hs : m.shownAs with
  | some k => exact isHeaded_trees (by simpa [hs] using hm) (by simp) m.role
  | none =>
      obtain ⟨hkind, hheaded⟩ := h.resolve_left (by simp [hs]) p hp
      exact isHeaded_trees (by simpa using hkind) (by simpa using hheaded) m.role

section
variable {m : Rule.Marks Kind Role} {blank : Bool} (hm : ∀ k ∈ m.shownAs, k.isExtra = false)

include hm

theorem isSolidStep_token {t : Token} (h : startsOr m.shownAs.isSome blank (.token t) = true) :
    IsSolidStep ⟨.token t, m.prec, m.assoc, m.role, m.shownAs⟩ := by
  refine isSolidStep_mark hm ?_
  rw [startsOr, Bool.or_eq_true] at h
  refine h.imp_right fun hkind p hp => ?_
  obtain ⟨k, hk, hextra⟩ := (Option.any_eq_true _ _).mp hkind
  rw [hp.1, hk]
  exact ⟨by simpa using hextra, by simp⟩

theorem isSolidStep_ref {n : Nonterminal} (h : startsOr m.shownAs.isSome blank (.ref n) = true) :
    IsSolidStep ⟨.ref n, m.prec, m.assoc, m.role, m.shownAs⟩ := by
  refine isSolidStep_mark hm ?_
  rw [startsOr, Bool.or_assoc, Bool.or_eq_true] at h
  refine h.imp_right fun hstarts p hp => ?_
  rw [hp.1]
  refine ⟨isExtra_shown n, fun hnone => hp.2.2 hnone ?_⟩
  simpa [hnone] using hstarts

theorem isSolidStep_many1 {c : PhraseRule} {i : Nat} (hi : spec.contents[i]? = some c)
    (h : startsOr m.shownAs.isSome blank (.many1 c) = true) :
    IsSolidStep ⟨.rep i, m.prec, m.assoc, m.role, m.shownAs⟩ := by
  refine isSolidStep_mark hm ?_
  rw [startsOr, Bool.or_eq_true] at h
  refine h.imp_right fun hstarts p hp => ?_
  rw [hp.1]
  exact ⟨by simp, fun _ => hp.2.2 c hi hstarts⟩

end

theorem isFirstCheck_startsOr (number : PhraseRule → Nat) :
    Rule.IsFirstCheck number (fun c => spec.contents[number c]? = some c) IsSolidStep
      (fun blank m r => startsOr m.shownAs.isSome blank r = true ∧
        ∀ k ∈ m.shownAs, k.isExtra = false) where
  blank h := h.1
  token h := isSolidStep_token h.2 h.1
  ref h := isSolidStep_ref h.2 h.1
  many1 hc h := isSolidStep_many1 h.2 hc h.1
  seq h := by
    have hseq := h.1
    rw [startsOr, Bool.or_eq_true, Bool.and_eq_true] at hseq
    exact hseq.imp (fun ha => ⟨ha, h.2⟩) fun hab => ⟨⟨hab.1, h.2⟩, hab.2, h.2⟩
  alt h := by
    obtain ⟨ha, hb⟩ := Bool.and_eq_true_iff.mp h.1
    exact ⟨⟨ha, h.2⟩, hb, h.2⟩
  prec h := h
  assoc h := h
  prefer h := h
  role h := h
  shownAs h := by
    obtain ⟨hk, hr⟩ := Bool.and_eq_true_iff.mp h.1
    exact ⟨hr, by simpa using hk⟩

/-- The steps of a rule whose phrases start with a tree. -/
theorem isSolidStep_of_mem_bodies {number : PhraseRule → Nat} (r : PhraseRule) (blank : Bool)
    (m : Rule.Marks Kind Role) (h : startsOr m.shownAs.isSome blank r = true)
    (hm : ∀ k ∈ m.shownAs, k.isExtra = false)
    (hnumber : ∀ c ∈ r.repeated, spec.contents[number c]? = some c) :
    ∀ b ∈ r.bodies number m, (b.steps = [] ∧ blank = true) ∨
      ∃ s ss, b.steps = s :: ss ∧ IsSolidStep s :=
  (isFirstCheck_startsOr number).first_step ⟨h, hm⟩ hnumber

/-! ### Tidy rules -/

/-- Whether a rule gives roles to trees of its own only; `inRole` where it plays a role, and
`inside` where it is shown as one node. -/
def isTidyRule (inRole inside : Bool) : PhraseRule → Bool
  | .blank => true
  | .token t => inside || t.kind?.all fun k => !k.isExtra
  | .ref n => inside || (shown n).isSome || !inRole || isSolid n
  | .seq a b | .alt a b => isTidyRule inRole inside a && isTidyRule inRole inside b
  | .many1 c => inside || !inRole || startsOr false false c
  | .prec _ r | .assoc _ r | .prefer _ r => isTidyRule inRole inside r
  | .role _ r => isTidyRule true inside r
  | .shownAs k r => !k.isExtra && isTidyRule inRole true r

theorem isTidyStep_mark {x : PhraseSymbol} {m : Rule.Marks Kind Role}
    (hm : ∀ k ∈ m.shownAs, k.isExtra = false)
    (h : ∀ p, IsTidyPart x p → (∀ c ∈ p.children, Tidy c) ∧ (m.shownAs.isSome = true ∨
      (∀ k ∈ p.kind, k.isExtra = false) ∧ (p.kind = none → m.role.isSome = true →
        p.children = [] ∨ IsHeaded p.children))) :
    IsTidyStep ⟨x, m.prec, m.assoc, m.role, m.shownAs⟩ := by
  intro p hp
  obtain ⟨hcs, hshown⟩ := h p hp
  cases hs : m.shownAs with
  | some k => exact tidy_trees hcs (by simpa [hs] using hm) (by simp)
  | none =>
      obtain ⟨hkind, hheaded⟩ := hshown.resolve_left (by simp [hs])
      exact tidy_trees hcs (by simpa using hkind) (by simpa using hheaded)

section
variable {m : Rule.Marks Kind Role} (hm : ∀ k ∈ m.shownAs, k.isExtra = false)

include hm

theorem isTidyStep_token {t : Token}
    (h : isTidyRule m.role.isSome m.shownAs.isSome (.token t) = true) :
    IsTidyStep ⟨.token t, m.prec, m.assoc, m.role, m.shownAs⟩ := by
  refine isTidyStep_mark hm fun p hp => ⟨by simp [hp.2], ?_⟩
  rw [isTidyRule, Bool.or_eq_true] at h
  refine h.imp_right fun hkind => ⟨fun k hk => ?_, fun _ _ => .inl hp.2⟩
  rw [← hp.1, hk] at hkind
  simpa using hkind

theorem isTidyStep_ref {n : Nonterminal}
    (h : isTidyRule m.role.isSome m.shownAs.isSome (.ref n) = true) :
    IsTidyStep ⟨.ref n, m.prec, m.assoc, m.role, m.shownAs⟩ := by
  refine isTidyStep_mark hm fun p hp => ⟨hp.2.1, ?_⟩
  rw [isTidyRule, Bool.or_assoc, Bool.or_assoc, Bool.or_eq_true] at h
  refine h.imp_right fun hsolid => ?_
  rw [hp.1]
  refine ⟨isExtra_shown n, fun hnone hrole => .inr (hp.2.2 hnone ?_)⟩
  simpa [hnone, hrole] using hsolid

theorem isTidyStep_many1 {c : PhraseRule} {i : Nat} (hi : spec.contents[i]? = some c)
    (h : isTidyRule m.role.isSome m.shownAs.isSome (.many1 c) = true) :
    IsTidyStep ⟨.rep i, m.prec, m.assoc, m.role, m.shownAs⟩ := by
  refine isTidyStep_mark hm fun p hp => ⟨hp.2.1, ?_⟩
  rw [isTidyRule, Bool.or_assoc, Bool.or_eq_true] at h
  refine h.imp_right fun hstarts => ?_
  rw [hp.1]
  refine ⟨by simp, fun _ hrole => .inr (hp.2.2 c hi ?_)⟩
  simpa [hrole] using hstarts

end

theorem isCheck_isTidyRule (number : PhraseRule → Nat) :
    Rule.IsCheck number (fun c => spec.contents[number c]? = some c) IsTidyStep (fun m r =>
      isTidyRule m.role.isSome m.shownAs.isSome r = true ∧
        ∀ k ∈ m.shownAs, k.isExtra = false) where
  token h := isTidyStep_token h.2 h.1
  ref h := isTidyStep_ref h.2 h.1
  many1 hc h := isTidyStep_many1 h.2 hc h.1
  seq h := by
    obtain ⟨ha, hb⟩ := Bool.and_eq_true_iff.mp h.1
    exact ⟨⟨ha, h.2⟩, hb, h.2⟩
  alt h := by
    obtain ⟨ha, hb⟩ := Bool.and_eq_true_iff.mp h.1
    exact ⟨⟨ha, h.2⟩, hb, h.2⟩
  prec h := h
  assoc h := h
  prefer h := h
  role h := h
  shownAs h := by
    obtain ⟨hk, hr⟩ := Bool.and_eq_true_iff.mp h.1
    exact ⟨hr, by simpa using hk⟩

/-- The steps of a tidy rule are tidy. -/
theorem isTidyStep_of_mem_bodies {number : PhraseRule → Nat} (r : PhraseRule)
    (m : Rule.Marks Kind Role) (h : isTidyRule m.role.isSome m.shownAs.isSome r = true)
    (hm : ∀ k ∈ m.shownAs, k.isExtra = false)
    (hnumber : ∀ c ∈ r.repeated, spec.contents[number c]? = some c) :
    ∀ b ∈ r.bodies number m, ∀ s ∈ b.steps, IsTidyStep s :=
  (isCheck_isTidyRule number).forall_steps ⟨h, hm⟩ hnumber

/-! ### The rules -/

theorem startsOr_rule (n : Nonterminal) :
    (!isSolid n || (shown n).isSome || startsOr false false (rule n)) = true := by
  cases n <;> decide

theorem isTidyRule_rule (n : Nonterminal) : isTidyRule false false (rule n) = true := by
  cases n <;> decide

theorem isTidyRule_repeated (n : Nonterminal) :
    ((rule n).repeated.all fun r => isTidyRule false false r) = true := by
  cases n <;> decide

/-! ### Productions -/

/-- The part is a tidy one for the symbol of the given number. -/
def TidyFor (x : Sym) (p : Part Kind Role) : Prop :=
  ∃ y, spec.symbolIndex y = x ∧ IsTidyPart y p

theorem TidyFor.isTidyPart {y : PhraseSymbol} {p : Part Kind Role}
    (h : TidyFor (spec.symbolIndex y) p) : IsTidyPart y p := by
  obtain ⟨z, hz, hp⟩ := h
  exact wellNumbered_spec.symbolIndex_injective hz ▸ hp

theorem IsExtraLeaf.tidy {p : Part Kind Role} (h : IsExtraLeaf p) :
    ∀ c ∈ p.trees none none, Tidy c := by
  obtain ⟨k, -, htrees⟩ := h.trees
  rw [htrees]
  intro c hc
  obtain rfl := List.mem_singleton.mp hc
  exact tidy_extra p.row p.text

/-- Tidy steps give tidy trees. -/
theorem tidy_assemble {ss : List PhraseStep} {parts : List (Part Kind Role)}
    (hss : ∀ s ∈ ss, IsTidyStep s)
    (h : Matches TidyFor IsExtraLeaf (ss.map fun s => spec.symbolIndex s.symbol) parts) :
    ∀ c ∈ assemble (ss.map spec.number) parts, Tidy c := by
  have hsymbols : (ss.map fun s => spec.symbolIndex s.symbol) =
      (ss.map spec.number).map (·.symbol) := by
    simp [spec.number_eq]
  rw [hsymbols] at h
  refine h.forall_assemble (fun p hp => hp.tidy) fun s hs p hp => ?_
  obtain ⟨s', hs', rfl⟩ := List.mem_map.mp hs
  rw [spec.number_eq] at hp ⊢
  exact hss s' hs' p hp.isTidyPart

/-- Parts without extra ones around them start with the trees of the first step. -/
theorem isHeaded_assemble {s : PhraseStep} {ss : List PhraseStep} {parts : List (Part Kind Role)}
    (hs : IsSolidStep s)
    (h : Matches TidyFor IsExtraLeaf ((s :: ss).map fun s => spec.symbolIndex s.symbol) parts)
    (ht : Tight parts) : IsHeaded (assemble ((s :: ss).map spec.number) parts) := by
  obtain ⟨p, ps, rfl, hp, hg⟩ := h.exists_cons ht
  obtain ⟨c, hc, hk⟩ := hs p hg.isTidyPart
  rw [List.map_cons, assemble, hp, spec.number_eq]
  refine ⟨c, ?_, hk⟩
  simp only [Bool.false_eq_true, if_false]
  rw [List.head?_append]
  simp [Option.mem_def.mp hc]

/-- A rule that is tidy gives tidy trees, and starts with one where all its phrases do. -/
theorem isTidyPart_body {r : PhraseRule} (hr : isTidyRule false false r = true)
    (hnumber : ∀ c ∈ r.repeated, spec.contents[spec.contents.idxOf c]? = some c)
    {b : Body PhraseSymbol Kind Role} (hb : b ∈ spec.bodiesOf r) {parts : List (Part Kind Role)}
    (h : Matches TidyFor IsExtraLeaf (b.steps.map fun s => spec.symbolIndex s.symbol) parts)
    (ht : Tight parts) : (∀ c ∈ assemble (b.steps.map spec.number) parts, Tidy c) ∧
      (startsOr false false r = true → IsHeaded (assemble (b.steps.map spec.number) parts)) := by
  refine ⟨tidy_assemble (isTidyStep_of_mem_bodies r {} hr (by simp) hnumber b hb) h, ?_⟩
  intro hstarts
  rcases isSolidStep_of_mem_bodies r false {} hstarts (by simp) hnumber b hb with
    ⟨-, hfalse⟩ | ⟨s, ss, hsteps, hsolid⟩
  · cases hfalse
  · rw [hsteps] at h ⊢
    exact isHeaded_assemble hsolid h ht

/-- A repetition within a larger one: its trees, and where they start. -/
theorem tidyFor_production {p : Production Kind Role} (hp : p ∈ table.productions)
    {parts : List (Part Kind Role)} (h : Matches TidyFor IsExtraLeaf p.symbols parts)
    (ht : Tight parts) (row : Nat) :
    TidyFor (.node p.head)
      ⟨(table.shown[p.head]?).join, row, "", assemble p.steps.toList parts, false⟩ := by
  rcases Spec.mem_productions (List.mem_toArray.mp hp) with
    ⟨n, -, b, hb, rfl⟩ | ⟨i, r, hr, b, hb, rfl⟩
  · rw [symbols_production] at h
    obtain ⟨htidy, hheaded⟩ :=
      isTidyPart_body (isTidyRule_rule n) (getElem?_contents_rule n) hb h ht
    have hkind : (table.shown[spec.nonterminalIndex n]?).join = shown n :=
      wellNumbered_spec.shown_nonterminal n
    refine ⟨.ref n, rfl, ?_⟩
    dsimp only [Spec.production]
    rw [hkind]
    refine ⟨rfl, htidy, fun hnone hsolid => hheaded ?_⟩
    have hrule := startsOr_rule n
    simpa [hnone, hsolid] using hrule
  · rw [symbols_production] at h
    have hmem : r ∈ spec.contents := List.mem_of_getElem? hr
    have hkind : (table.shown[spec.nonterminals.length + i]?).join = none :=
      spec.shown_repetition i
    refine ⟨.rep i, rfl, ?_⟩
    dsimp only [Spec.production]
    rw [hkind]
    have hcontent : (∀ c ∈ assemble (b.steps.map spec.number) parts, Tidy c) ∧
        (startsOr false false r = true →
          IsHeaded (assemble (b.steps.map spec.number) parts)) := by
      rcases List.mem_cons.mp hb with rfl | hb
      · refine ⟨tidy_assemble ?_ h, fun hstarts => ?_⟩
        · intro s hs
          have hs : s ∈ [_, _] := hs
          simp only [List.mem_cons, List.not_mem_nil, or_false, or_self] at hs
          exact hs ▸ isTidyStep_many1 (m := {}) (by simp) hr rfl
        · have hsolid : startsOr false false (.many1 r) = true := hstarts
          exact isHeaded_assemble (isSolidStep_many1 (m := {}) (by simp) hr hsolid) h ht
      · obtain ⟨n, -, hn⟩ := Spec.mem_contents.mp hmem
        have htidy : isTidyRule false false r = true :=
          List.all_eq_true.mp (isTidyRule_repeated n) r hn
        exact isTidyPart_body htidy (getElem?_contents_content hmem) hb h ht
    refine ⟨rfl, hcontent.1, fun r' hr' hstarts => hcontent.2 ?_⟩
    obtain rfl := Option.some.inj (hr'.symm.trans hr)
    exact hstarts

theorem closed_tidyFor : Closed table reader (fun _ => True) IsToken TidyFor IsExtraLeaf where
  read := closed_standsFor.read
  reread := closed_standsFor.reread
  token {l} h := by
    obtain ⟨t, ht, hkind⟩ := h
    exact ⟨.token t, congrArg Sym.token ht.symm, hkind, rfl⟩
  extras := closed_standsFor.extras
  production row hp h ht _ := tidyFor_production hp h ht row

/-- **Every parsed tree is tidy.** -/
theorem tidy_of_parse? {source : String} {t : Node} (h : parse? source = some t) : Tidy t := by
  obtain ⟨before, whole, after, hbefore, hwhole, hafter, rfl⟩ :=
    parse?_spec closed_tidyFor wellFormed_table trivial h
  obtain ⟨-, hchildren, -⟩ := TidyFor.isTidyPart (y := .ref .module) hwhole
  have hextras : ∀ {ps : List (Part Kind Role)}, (∀ p ∈ ps, IsExtraLeaf p) →
      ∀ c ∈ ps.flatMap (·.trees none none), Tidy c := by
    intro ps hps c hc
    obtain ⟨p, hp, hc⟩ := List.mem_flatMap.mp hc
    exact (hps p hp).tidy c hc
  refine tidy_node (fun hextra => by cases hextra) ?_ 0 ""
  intro c hc
  rcases List.mem_append.mp hc with hc | hc
  · exact hextras hbefore c hc
  · rcases List.mem_append.mp hc with hc | hc
    · exact hchildren c hc
    · exact hextras hafter c hc

end DecisionScore.Python
