import DecisionScore.Proofs.Grammar.Numbering
import DecisionScore.Proofs.Python.Phrases

/-! # Parsed trees are shaped

Whatever the parser makes of a text is shaped (`shaped_of_parse?`).  Each phrase on the stack of a
reading stands for its symbol: for a tame rule this is known, and what remains are the rules of
`if` statements and `elif` clauses, whose trees are put together part by part. -/

namespace DecisionScore.Python

open Grammar

/-! ### Trees of a rule -/

/-- A body of the rule gives the trees. -/
def Gives (r : PhraseRule) (m : Rule.Marks Kind Role) (ts : List Node) : Prop :=
  ∃ b ∈ r.bodies (fun c => spec.contents.idxOf c) m, Yields b.steps ts

namespace Gives

variable {a b : PhraseRule} {m : Rule.Marks Kind Role} {ts : List Node}

theorem seq (h : Gives (.seq a b) m ts) : ∃ xs ys, ts = xs ++ ys ∧ Gives a m xs ∧ Gives b m ys := by
  obtain ⟨c, hc, h⟩ := h
  obtain ⟨x, hx, hc⟩ := List.mem_flatMap.mp hc
  obtain ⟨y, hy, rfl⟩ := List.mem_map.mp hc
  obtain ⟨xs, ys, rfl, hxs, hys⟩ := h.append
  exact ⟨xs, ys, rfl, ⟨x, hx, hxs⟩, y, hy, hys⟩

theorem alt (h : Gives (.alt a b) m ts) : Gives a m ts ∨ Gives b m ts := by
  obtain ⟨c, hc, h⟩ := h
  rcases List.mem_append.mp hc with hc | hc
  · exact .inl ⟨c, hc, h⟩
  · exact .inr ⟨c, hc, h⟩

theorem blank (h : Gives .blank m ts) : ∀ c ∈ ts, isFiller c = true := by
  obtain ⟨b, hb, h⟩ := h
  obtain rfl := List.mem_singleton.mp hb
  exact h.of_nil

/-- A rule of one symbol gives the trees of one part among fillers. -/
theorem symbol {x : PhraseSymbol} (h : Gives a m ts)
    (hx : a.bodies (fun c => spec.contents.idxOf c) m =
      [⟨[⟨x, m.prec, m.assoc, m.role, m.shownAs⟩], 0⟩]) :
    ∃ p, Stands x p ∧ AmongFillers (p.trees m.role m.shownAs) ts := by
  obtain ⟨b, hb, h⟩ := h
  rw [hx] at hb
  obtain rfl := List.mem_singleton.mp hb
  exact h.of_single

end Gives

/-! ### Fillers -/

theorem isShaped_of_isPlain (c : Node) (h : isPlain c = true) : isShaped c = true := by
  induction c using Tree.childInduction with
  | node c ih =>
      rw [isPlain_eq, Bool.and_eq_true, arePlain_iff] at h
      have hbranching : c.kind.isBranching = false := by
        cases hk : c.kind <;> simp_all [Kind.isPlain, Kind.isBranching]
      obtain ⟨k, r, row, text, cs⟩ := c
      refine (isTameTree_node hbranching ?_ r row text).1
      intro d hd
      exact ⟨ih d hd (h.2 d hd), isElif_eq_false_of_isPlain (h.2 d hd)⟩

theorem isShaped_of_isFiller {c : Node} (h : isFiller c = true) : isShaped c = true :=
  isShaped_of_isPlain c (isPlain_of_isFiller h)

/-- Fillers around nodes that have a property which fillers have. -/
theorem AmongFillers.forall {P : Node → Prop} (hP : ∀ c, isFiller c = true → P c)
    {xs ts : List Node} (h : AmongFillers xs ts) (hxs : ∀ c ∈ xs, P c) : ∀ c ∈ ts, P c := by
  obtain ⟨fs, gs, rfl, hfs, hgs⟩ := h
  intro c hc
  rcases List.mem_append.mp hc with hc | hc
  · exact hP c (hfs c hc)
  · rcases List.mem_append.mp hc with hc | hc
    · exact hxs c hc
    · exact hP c (hgs c hc)

theorem AmongFillers.append {as xs ts : List Node} (has : ∀ c ∈ as, isFiller c = true)
    (h : AmongFillers xs ts) : AmongFillers xs (as ++ ts) := by
  obtain ⟨fs, gs, rfl, hfs, hgs⟩ := h
  refine ⟨as ++ fs, gs, (List.append_assoc _ _ _).symm, ?_, hgs⟩
  intro c hc
  rcases List.mem_append.mp hc with hc | hc
  · exact has c hc
  · exact hfs c hc

/-- A token without a tree leaves nothing but fillers. -/
theorem Gives.fillers_of_hidden {t : Token} {r : Option Role} {ts : List Node}
    (h : Gives (tok t) { role := r } ts) (ht : t.kind? = none) : ∀ c ∈ ts, isFiller c = true := by
  obtain ⟨p, ⟨hkind, hchildren⟩, hts⟩ := h.symbol rfl
  refine hts.forall (fun _ h => h) ?_
  intro c hc
  unfold Part.trees at hc
  rw [hkind, ht, hchildren] at hc
  cases hc

/-- A keyword or a punctuation mark among fillers is a filler itself. -/
theorem Gives.fillers_of_mark {t : Token} {ts : List Node} (h : Gives (tok t) {} ts)
    (ht : t.kind? = some .mark) : ∀ c ∈ ts, isFiller c = true := by
  obtain ⟨p, ⟨hkind, hchildren⟩, hts⟩ := h.symbol rfl
  refine hts.forall (fun _ h => h) ?_
  intro c hc
  unfold Part.trees at hc
  rw [hkind, ht, hchildren] at hc
  obtain rfl := List.mem_singleton.mp hc
  rfl

/-! ### The parts of an `if` or `elif` -/

/-- Among fillers, one node in the given role that is no clause. -/
def HasPart (r : Role) (ts : List Node) : Prop :=
  ∃ c, AmongFillers [c] ts ∧ c.role = some r ∧ c.kind.isClause = false ∧ isShaped c = true

theorem Gives.hasPart_condition {ts : List Node}
    (h : Gives (.role .condition (nt .expression)) {} ts) : HasPart .condition ts := by
  obtain ⟨p, hp, hts⟩ := Gives.symbol (a := nt .expression) (m := { role := some .condition }) h rfl
  obtain ⟨c, hc, hclause, hshaped, hrole⟩ := hp.trees_single (.inl rfl) (some .condition)
  exact ⟨c, hc ▸ hts, hrole rfl, hclause, hshaped⟩

/-- A part that is shown as a phrase. -/
theorem Stands.hasPart {x : PhraseSymbol} {p : Part Kind Role} (h : Stands x p)
    (hif : x ≠ .ref .ifStatement) (helif : x ≠ .ref .elifClause)
    (hrep : ∀ i, x = .rep i → spec.contents[i]? ≠ some elifs) {k : Option Kind}
    (hk : (k <|> p.kind) = some .phrase) {r : Role} {ts : List Node}
    (hts : AmongFillers (p.trees (some r) k) ts) : HasPart r ts := by
  obtain ⟨hchildren, -⟩ := h.isTameTree hif helif hrep
  unfold Part.trees at hts
  rw [hk] at hts
  exact ⟨_, hts, rfl, rfl, (isTameTree_node rfl hchildren _ _ _).1⟩

theorem Gives.hasPart_suite {ts : List Node} (h : Gives (.role .consequence suite) {} ts) :
    HasPart .consequence ts := by
  have hsuite : Gives suite { role := some .consequence } ts := h
  rcases hsuite.alt with hsimple | hsuite
  · have hsimple : Gives (nt .simpleStatements)
      { role := some .consequence, shownAs := some .phrase } ts := hsimple
    obtain ⟨p, hp, hts⟩ := hsimple.symbol rfl
    exact hp.hasPart (by simp) (by simp) (by simp) rfl hts
  · rcases hsuite.alt with hblock | hempty
    · -- The indentation has no tree, so the block is the first one to take the role.
      obtain ⟨xs, ys, rfl, hindent, hblock⟩ := hblock.seq
      obtain ⟨p, hp, hys⟩ := hblock.symbol rfl
      have hxs := hindent.fillers_of_hidden rfl
      exact hp.hasPart (by simp) (by simp) (by simp) (k := none) hp.1 (hys.append hxs)
    · have hempty : Gives (tok .newline)
        { role := some .consequence, shownAs := some .phrase } ts := hempty
      obtain ⟨p, hp, hts⟩ := hempty.symbol rfl
      exact hp.hasPart (by simp) (by simp) (by simp) rfl hts

/-! ### The clauses of an `if` -/

theorem elifs_mem_contents : elifs ∈ spec.contents := by
  refine Spec.mem_contents.mpr ⟨.ifStatement, by decide, ?_⟩
  decide

theorem Stands.isShaped_elif {p : Part Kind Role} (h : Stands (.ref .elifClause) p)
    (r : Option Role) : ∀ c ∈ p.trees r none, isElif c = true ∧ isShaped c = true := by
  obtain ⟨hkind, hs, hphrase⟩ := h
  unfold Part.trees
  rw [hkind]
  intro c hc
  obtain rfl := List.mem_singleton.mp hc
  refine ⟨rfl, ?_⟩
  rw [isShaped_eq, Bool.and_eq_true]
  exact ⟨hphrase, hs⟩

theorem labelFirst_none (cs : List Node) : labelFirst none cs = cs := by
  cases cs <;> rfl

/-- The `elif` clauses of an `if` statement. -/
theorem Gives.elifs {ts : List Node} (h : Gives (.many Python.elifs) {} ts) :
    ∀ c ∈ ts, (isElif c = true ∨ isPlain c = true) ∧ isShaped c = true := by
  have hfiller : ∀ c, isFiller c = true →
      (isElif c = true ∨ isPlain c = true) ∧ isShaped c = true :=
    fun c hc => ⟨.inr (isPlain_of_isFiller hc), isShaped_of_isFiller hc⟩
  rcases h.alt with hsome | hnone
  · obtain ⟨p, ⟨r, hr, hkind, hs, hrepeated⟩, hts⟩ := hsome.symbol rfl
    rw [Spec.getElem?_idxOf_contents elifs_mem_contents] at hr
    obtain rfl := Option.some.inj hr
    simp only [IsRepeated, if_true] at hrepeated
    refine hts.forall hfiller ?_
    intro c hc
    unfold Part.trees at hc
    rw [hkind] at hc
    have hchild : c ∈ p.children := labelFirst_none p.children ▸ hc
    exact ⟨hrepeated c hchild, (areShaped_iff _).mp hs c hchild⟩
  · exact fun c hc => hfiller c (hnone.blank c hc)

/-- `elif` clauses and plain nodes before other clauses. -/
theorem areClauses_append {cs ds : List Node}
    (hcs : ∀ c ∈ cs, isElif c = true ∨ isPlain c = true) (hds : areClauses ds = true) :
    areClauses (cs ++ ds) = true := by
  induction cs with
  | nil => exact hds
  | cons c cs ih =>
      have hrest := ih fun d hd => hcs d (List.mem_cons_of_mem c hd)
      rw [List.cons_append, areClauses]
      rcases hcs c List.mem_cons_self with helif | hplain
      · have hk : c.kind = .elifClause := by simpa [isElif] using helif
        rw [hk]
        exact hrest
      · have hk := (Bool.and_eq_true_iff.mp (isPlain_eq c ▸ hplain)).1
        split
        · exact hrest
        · rename_i helse
          simp [helse, Kind.isPlain] at hk
        · rw [hplain, hrest]
          rfl

/-- The `else` clause of an `if` statement. -/
theorem Gives.areClauses_else {ts : List Node}
    (h : Gives (.opt (.role .alternative (nt .elseClause))) {} ts) :
    areClauses ts = true ∧ ∀ c ∈ ts, isShaped c = true := by
  rcases h.alt with helse | hnone
  · have helse : Gives (nt .elseClause) { role := some .alternative } ts := helse
    obtain ⟨p, hp, hts⟩ := helse.symbol rfl
    obtain ⟨hchildren, -⟩ := hp.isTameTree (by simp) (by simp) (by simp)
    unfold Part.trees at hts
    rw [hp.1] at hts
    refine ⟨?_, hts.forall (fun c hc => isShaped_of_isFiller hc) ?_⟩
    · obtain ⟨fs, gs, rfl, hfs, hgs⟩ := hts
      refine areClauses_append (fun c hc => .inr (isPlain_of_isFiller (hfs c hc))) ?_
      exact (arePlain_iff gs).mpr fun c hc => isPlain_of_isFiller (hgs c hc)
    · intro c hc
      obtain rfl := List.mem_singleton.mp hc
      exact (isTameTree_node rfl hchildren _ _ _).1
  · have hfillers := hnone.blank
    refine ⟨?_, fun c hc => isShaped_of_isFiller (hfillers c hc)⟩
    rw [← List.append_nil ts]
    exact areClauses_append (fun c hc => .inr (isPlain_of_isFiller (hfillers c hc))) rfl

/-! ### Whole `if` statements and `elif` clauses -/

theorem isBranch_nodes (b : Branch) (after : List Node → Bool) :
    isBranch after b.nodes = after b.after := by
  have hcondition : isFiller b.condition = false := by
    simp [isFiller, b.condition_role]
  have hconsequence : isFiller b.consequence = false := by
    simp [isFiller, b.consequence_role]
  unfold isBranch Branch.nodes
  rw [List.dropWhile_append_of_pos b.before_filler,
    List.dropWhile_cons_of_neg (by simp [hcondition])]
  dsimp only
  rw [List.dropWhile_append_of_pos b.between_filler,
    List.dropWhile_cons_of_neg (by simp [hconsequence])]
  simp [b.condition_role, b.condition_kind, b.consequence_role, b.consequence_kind]

theorem areShaped_append (cs ds : List Node) :
    areShaped (cs ++ ds) = (areShaped cs && areShaped ds) := by
  induction cs with
  | nil => rfl
  | cons c cs ih => rw [List.cons_append, areShaped, areShaped, ih, Bool.and_assoc]

theorem HasPart.areShaped {r : Role} {ts : List Node} (h : HasPart r ts) :
    areShaped ts = true := by
  obtain ⟨c, hts, -, -, hc⟩ := h
  refine (areShaped_iff ts).mpr (hts.forall (fun d hd => isShaped_of_isFiller hd) ?_)
  intro d hd
  obtain rfl := List.mem_singleton.mp hd
  exact hc

theorem HasPart.append {r : Role} {as ts : List Node} (has : ∀ c ∈ as, isFiller c = true)
    (h : HasPart r ts) : HasPart r (as ++ ts) := by
  obtain ⟨c, hts, hc⟩ := h
  exact ⟨c, hts.append has, hc⟩

/-- A condition, a consequence, and what comes after them. -/
theorem isBranch_append {after : List Node → Bool} {xs ys zs : List Node}
    (hxs : HasPart .condition xs) (hys : HasPart .consequence ys)
    (hafter : ∀ gs, (∀ c ∈ gs, isFiller c = true) → after (gs ++ zs) = true) :
    isBranch after (xs ++ (ys ++ zs)) = true := by
  obtain ⟨c, ⟨fs, gs, rfl, hfs, hgs⟩, hcr, hck, -⟩ := hxs
  obtain ⟨d, ⟨fs', gs', rfl, hfs', hgs'⟩, hdr, hdk, -⟩ := hys
  have hbetween : ∀ c ∈ gs ++ fs', isFiller c = true := by
    intro c hc
    rcases List.mem_append.mp hc with hc | hc
    · exact hgs c hc
    · exact hfs' c hc
  let b : Branch := ⟨fs, c, gs ++ fs', d, gs' ++ zs, hfs, hbetween, hcr, hdr, hck, hdk⟩
  have hnodes : fs ++ ([c] ++ gs) ++ (fs' ++ ([d] ++ gs') ++ zs) = b.nodes := by
    simp [b, Branch.nodes]
  rw [hnodes, isBranch_nodes]
  exact hafter gs' hgs'

theorem isBranch_ifStatement {ts : List Node} (h : Gives (rule .ifStatement) {} ts) :
    isBranch areClauses ts = true ∧ areShaped ts = true := by
  obtain ⟨as, ts, rfl, hkeyword, h⟩ := h.seq
  obtain ⟨xs, ts, rfl, hcondition, h⟩ := h.seq
  obtain ⟨bs, ts, rfl, hcolon, h⟩ := h.seq
  obtain ⟨ys, ts, rfl, hsuite, h⟩ := h.seq
  obtain ⟨es, zs, rfl, helifs, helse⟩ := h.seq
  have hxs := hcondition.hasPart_condition.append (hkeyword.fillers_of_mark rfl)
  have hys := hsuite.hasPart_suite.append (hcolon.fillers_of_mark rfl)
  have hes := helifs.elifs
  obtain ⟨hclauses, hzs⟩ := helse.areClauses_else
  have hts : as ++ (xs ++ (bs ++ (ys ++ (es ++ zs)))) = as ++ xs ++ (bs ++ ys ++ (es ++ zs)) := by
    simp only [List.append_assoc]
  rw [hts]
  constructor
  · refine isBranch_append hxs hys ?_
    intro gs hgs
    refine areClauses_append (fun c hc => .inr (isPlain_of_isFiller (hgs c hc))) ?_
    exact areClauses_append (fun c hc => (hes c hc).1) hclauses
  · have hshapedElifs : areShaped es = true := (areShaped_iff es).mpr fun c hc => (hes c hc).2
    have hshapedElse : areShaped zs = true := (areShaped_iff zs).mpr hzs
    rw [areShaped_append, hxs.areShaped, areShaped_append, hys.areShaped, areShaped_append,
      hshapedElifs, hshapedElse]
    rfl

theorem isBranch_elifClause {ts : List Node} (h : Gives (rule .elifClause) {} ts) :
    isBranch arePlain ts = true ∧ areShaped ts = true := by
  obtain ⟨as, ts, rfl, hkeyword, h⟩ := h.seq
  obtain ⟨xs, ts, rfl, hcondition, h⟩ := h.seq
  obtain ⟨bs, ys, rfl, hcolon, hsuite⟩ := h.seq
  have hxs := hcondition.hasPart_condition.append (hkeyword.fillers_of_mark rfl)
  have hys := hsuite.hasPart_suite.append (hcolon.fillers_of_mark rfl)
  have hts : as ++ (xs ++ (bs ++ ys)) = as ++ xs ++ (bs ++ ys ++ []) := by
    simp only [List.append_assoc, List.append_nil]
  rw [hts]
  constructor
  · refine isBranch_append hxs hys ?_
    intro gs hgs
    rw [List.append_nil]
    exact (arePlain_iff gs).mpr fun c hc => isPlain_of_isFiller (hgs c hc)
  · rw [areShaped_append, hxs.areShaped, List.append_nil, hys.areShaped]
    rfl

/-! ### Productions -/

theorem index_injective : Function.Injective Token.index := by
  intro s t h
  rw [← Token.ofNat_ctorIdx s, ← Token.ofNat_ctorIdx t]
  exact congrArg Token.ofNat h

theorem wellNumbered_spec : spec.WellNumbered := by
  refine ⟨index_injective, ?_⟩
  intro n
  cases n <;> rfl

/-- The part stands for the symbol of the given number. -/
def StandsFor (x : Sym) (p : Part Kind Role) : Prop := ∃ y, spec.symbolIndex y = x ∧ Stands y p

theorem StandsFor.stands {y : PhraseSymbol} {p : Part Kind Role}
    (h : StandsFor (spec.symbolIndex y) p) : Stands y p := by
  obtain ⟨z, hz, hp⟩ := h
  exact wellNumbered_spec.symbolIndex_injective hz ▸ hp

theorem IsExtraLeaf.trees {p : Part Kind Role} (h : IsExtraLeaf p) :
    ∃ k, k.isExtra = true ∧ p.trees none none = [.node k none p.row p.text []] := by
  obtain ⟨k, hkind, hk, hchildren⟩ := h
  refine ⟨k, hk, ?_⟩
  unfold Part.trees
  rw [hkind, hchildren]
  rfl

/-- The children of a production are what its steps give. -/
theorem yields_assemble {ss : List PhraseStep} {parts : List (Part Kind Role)}
    (h : Matches StandsFor IsExtraLeaf (ss.map fun s => spec.symbolIndex s.symbol) parts) :
    Yields ss (assemble (ss.map spec.number) parts) := by
  generalize hxs : (ss.map fun s => spec.symbolIndex s.symbol) = xs at h
  induction h generalizing ss with
  | nil =>
      obtain rfl := List.map_eq_nil_iff.mp hxs
      exact .nil
  | @extra xs p ps hp he _ ih =>
      obtain ⟨k, hk, htrees⟩ := he.trees
      have hassemble : assemble (ss.map spec.number) (p :: ps) =
          p.trees none none ++ assemble (ss.map spec.number) ps := by
        cases ss with
        | nil => rfl
        | cons s ss => rw [List.map_cons, assemble, if_pos hp]
      rw [hassemble, htrees]
      exact .extra p.row p.text hk (ih hxs)
  | @part x xs p ps hp hg _ ih =>
      cases ss with
      | nil => cases hxs
      | cons s ss =>
          obtain ⟨rfl, hrest⟩ := List.cons.inj hxs
          rw [List.map_cons, assemble, hp, spec.number_eq]
          exact .step hg.stands (ih hrest)

/-- What a rule may repeat is numbered. -/
theorem getElem?_contents_rule (n : Nonterminal) :
    ∀ c ∈ (rule n).repeated, spec.contents[spec.contents.idxOf c]? = some c := by
  intro c hc
  refine Spec.getElem?_idxOf_contents (Spec.mem_contents.mpr ⟨n, ?_, hc⟩)
  exact wellNumbered_spec.mem_nonterminals n

theorem getElem?_contents_content {r : PhraseRule} (h : r ∈ spec.contents) :
    ∀ c ∈ r.repeated, spec.contents[spec.contents.idxOf c]? = some c :=
  fun _ hc => Spec.getElem?_idxOf_contents (Spec.mem_contents_of_repeated h hc)

theorem isTame_content {r : PhraseRule} (h : r ∈ spec.contents) (hr : r ≠ elifs) :
    isTame false r = true := by
  obtain ⟨n, -, hn⟩ := Spec.mem_contents.mp h
  have hall := List.all_eq_true.mp (isTame_repeated n) r hn
  simpa [hr] using hall

/-- What tame rules give. -/
theorem Gives.isTameTree {r : PhraseRule} {ts : List Node} (h : Gives r {} ts)
    (hr : isTame false r = true)
    (hnumber : ∀ c ∈ r.repeated, spec.contents[spec.contents.idxOf c]? = some c) :
    ∀ c ∈ ts, IsTameTree c := by
  obtain ⟨b, hb, h⟩ := h
  exact h.isTameTree (isTameStep_of_mem_bodies r {} hr (by simp) hnumber b hb)

/-- One step over parts without extra ones around them. -/
theorem assemble_single {s : PhraseStep} {parts : List (Part Kind Role)} (hs : IsSingleStep s)
    (h : Matches StandsFor IsExtraLeaf [spec.symbolIndex s.symbol] parts) (ht : Tight parts) :
    ∃ c, assemble [spec.number s] parts = [c] ∧ c.kind.isClause = false := by
  obtain ⟨p, rfl, hp, hg⟩ := h.eq_single ht
  obtain ⟨c, hc, hclause⟩ := hs p hg.stands
  refine ⟨c, ?_, hclause⟩
  rw [assemble, hp, spec.number_eq]
  simpa [assemble] using hc

/-- The children of a rule's body. -/
theorem isPhrase_rule {n : Nonterminal} {b : Body PhraseSymbol Kind Role}
    (hb : b ∈ spec.bodiesOf (rule n)) {parts : List (Part Kind Role)}
    (h : Matches StandsFor IsExtraLeaf (b.steps.map fun s => spec.symbolIndex s.symbol) parts)
    (ht : Tight parts) :
    IsPhrase n (assemble (b.steps.map spec.number) parts) ∧
      areShaped (assemble (b.steps.map spec.number) parts) = true := by
  have hgives : Gives (rule n) {} (assemble (b.steps.map spec.number) parts) :=
    ⟨b, hb, yields_assemble h⟩
  by_cases hif : n = .ifStatement
  · subst hif
    exact isBranch_ifStatement hgives
  by_cases helif : n = .elifClause
  · subst helif
    exact isBranch_elifClause hgives
  have htame : isTame false (rule n) = true := by
    have hrule := isTame_rule n
    simpa [hif, helif] using hrule
  have htrees := hgives.isTameTree htame (getElem?_contents_rule n)
  refine ⟨?_, (areShaped_iff _).mpr fun c hc => (htrees c hc).1⟩
  by_cases hsingle : n = .expression ∨ n = .primary
  · obtain ⟨s, hs, hstep⟩ := isSingleStep_of_mem_bodies (rule n) {} (isSingle_rule hsingle)
      (by simp) b hb
    rw [hs] at h ⊢
    rcases hsingle with rfl | rfl <;> exact assemble_single hstep h ht
  · unfold IsPhrase
    split
    · exact absurd rfl hif
    · exact absurd rfl helif
    · exact absurd (.inl rfl) hsingle
    · exact absurd (.inr rfl) hsingle
    · exact fun c hc => (htrees c hc).2

theorem isRepeated_of_isFiller (r : PhraseRule) {c : Node} (h : isFiller c = true) :
    IsRepeated r c := by
  unfold IsRepeated
  split
  · exact .inr (isPlain_of_isFiller h)
  · exact isElif_eq_false_of_isPlain (isPlain_of_isFiller h)

/-- The trees of a repetition within a larger one. -/
theorem Yields.isRepeated {i : Nat} {r : PhraseRule} (hr : spec.contents[i]? = some r)
    {ts : List Node} (h : Yields [⟨.rep i, 0, none, none, none⟩] ts) :
    ∀ c ∈ ts, IsRepeated r c ∧ isShaped c = true := by
  obtain ⟨p, ⟨r', hr', hkind, hs, hrepeated⟩, hts⟩ := h.of_single
  obtain rfl := Option.some.inj (hr'.symm.trans hr)
  refine hts.forall (fun c hc => ⟨isRepeated_of_isFiller r' hc, isShaped_of_isFiller hc⟩) ?_
  intro c hc
  unfold Part.trees at hc
  rw [hkind] at hc
  have hchild : c ∈ p.children := labelFirst_none p.children ▸ hc
  exact ⟨hrepeated c hchild, (areShaped_iff _).mp hs c hchild⟩

/-- The trees of the content of a repetition. -/
theorem Gives.isRepeated {r : PhraseRule} (hr : r ∈ spec.contents) {ts : List Node}
    (h : Gives r {} ts) : ∀ c ∈ ts, IsRepeated r c ∧ isShaped c = true := by
  by_cases helifs : r = Python.elifs
  · subst helifs
    have h : Gives (nt .elifClause) { role := some .alternative } ts := h
    obtain ⟨p, hp, hts⟩ := h.symbol rfl
    refine hts.forall (fun c hc => ⟨isRepeated_of_isFiller _ hc, isShaped_of_isFiller hc⟩) ?_
    intro c hc
    obtain ⟨helif, hshaped⟩ := hp.isShaped_elif _ c hc
    exact ⟨by simp [IsRepeated, helif], hshaped⟩
  · have htrees := h.isTameTree (isTame_content hr helifs) (getElem?_contents_content hr)
    intro c hc
    obtain ⟨hshaped, helif⟩ := htrees c hc
    exact ⟨by simp [IsRepeated, helifs, helif], hshaped⟩

/-- The children of one of the two bodies of a repetition. -/
theorem isRepeated_content {i : Nat} {r : PhraseRule} (hr : spec.contents[i]? = some r)
    {b : Body PhraseSymbol Kind Role} (hb : b ∈ Spec.twice i :: spec.bodiesOf r)
    {ts : List Node} (h : Yields b.steps ts) : ∀ c ∈ ts, IsRepeated r c ∧ isShaped c = true := by
  rcases List.mem_cons.mp hb with rfl | hb
  · obtain ⟨xs, ys, rfl, hxs, hys⟩ := @Yields.append [_] [_] ts h
    intro c hc
    rcases List.mem_append.mp hc with hc | hc
    · exact hxs.isRepeated hr c hc
    · exact hys.isRepeated hr c hc
  · exact Gives.isRepeated (List.mem_of_getElem? hr) ⟨b, hb, h⟩

/-! ### Readings of Python -/

/-- A token has the kind of its number. -/
def IsToken (l : Lexeme Kind) : Prop := ∃ t : Token, l.token = t.index ∧ l.kind = t.kind?

theorem symbols_production (head : Nat) (b : Body PhraseSymbol Kind Role) :
    (spec.production head b).symbols = b.steps.map fun s => spec.symbolIndex s.symbol := by
  simp [Production.symbols, Spec.production, spec.number_eq]

/-- A completed production stands for its head. -/
theorem standsFor_production {p : Production Kind Role} (hp : p ∈ table.productions)
    {parts : List (Part Kind Role)} (h : Matches StandsFor IsExtraLeaf p.symbols parts)
    (ht : Tight parts) (row : Nat) :
    StandsFor (.node p.head)
      ⟨(table.shown[p.head]?).join, row, "", assemble p.steps.toList parts, false⟩ := by
  rcases Spec.mem_productions (List.mem_toArray.mp hp) with
    ⟨n, -, b, hb, rfl⟩ | ⟨i, r, hr, b, hb, rfl⟩
  · rw [symbols_production] at h
    obtain ⟨hphrase, hshaped⟩ := isPhrase_rule hb h ht
    have hkind : (table.shown[spec.nonterminalIndex n]?).join = shown n :=
      wellNumbered_spec.shown_nonterminal n
    refine ⟨.ref n, rfl, ?_⟩
    dsimp only [Spec.production]
    rw [hkind]
    exact ⟨rfl, hshaped, hphrase⟩
  · rw [symbols_production] at h
    have hall := isRepeated_content hr hb (yields_assemble h)
    have hkind : (table.shown[spec.nonterminals.length + i]?).join = none :=
      spec.shown_repetition i
    refine ⟨.rep i, rfl, ?_⟩
    dsimp only [Spec.production]
    rw [hkind]
    refine ⟨r, hr, rfl, ?_, fun c hc => (hall c hc).1⟩
    exact (areShaped_iff _).mpr fun c hc => (hall c hc).2

theorem closed_standsFor : Closed table reader (fun _ => True) IsToken StandsFor IsExtraLeaf where
  read _ h := by
    obtain ⟨s, -, hs⟩ := Option.map_eq_some_iff.mp h
    obtain ⟨rfl, -⟩ := Prod.mk.inj hs
    exact ⟨⟨s.token, rfl, rfl⟩, trivial⟩
  reread {l l'} _ h := by
    simp only [reader] at h
    split at h
    · obtain rfl := Option.some.inj h
      exact ⟨.identifier, rfl, rfl⟩
    · cases h
  token {l} h := by
    obtain ⟨t, ht, hkind⟩ := h
    exact ⟨.token t, congrArg Sym.token ht.symm, hkind, rfl⟩
  extras {l} h he := by
    obtain ⟨t, ht, hkind⟩ := h
    simp only [reader, ht, Bool.or_eq_true, beq_iff_eq] at he
    rcases he with he | he
    · obtain rfl := index_injective he
      exact ⟨.comment, hkind, rfl, rfl⟩
    · obtain rfl := index_injective he
      exact ⟨.lineContinuation, hkind, rfl, rfl⟩
  production row hp h ht _ := standsFor_production hp h ht row

theorem wellFormed_table : table.WellFormed := by
  refine Table.wellFormed_build (wellNumbered_spec.unused ?_)
  intro n
  cases n <;> rfl

/-- **Every parsed tree is shaped.** -/
theorem shaped_of_parse? {source : String} {t : Node} (h : parse? source = some t) : Shaped t := by
  obtain ⟨before, whole, after, hbefore, hwhole, hafter, rfl⟩ :=
    parse?_spec closed_standsFor wellFormed_table trivial h
  obtain ⟨-, hs, hphrase⟩ := StandsFor.stands (y := .ref .module) hwhole
  have hextras : ∀ {ps : List (Part Kind Role)}, (∀ p ∈ ps, IsExtraLeaf p) →
      ∀ c ∈ ps.flatMap (·.trees none none), IsTameTree c := by
    intro ps hps c hc
    obtain ⟨p, hp, hc⟩ := List.mem_flatMap.mp hc
    obtain ⟨k, hk, htrees⟩ := (hps p hp).trees
    rw [htrees] at hc
    obtain rfl := List.mem_singleton.mp hc
    exact isTameTree_extra hk p.row p.text
  have hchildren := hphrase.isTameTree (by simp) (by simp) hs
  refine And.symm (isTameTree_node rfl ?_ none 0 "")
  intro c hc
  rcases List.mem_append.mp hc with hc | hc
  · exact hextras hbefore c hc
  · rcases List.mem_append.mp hc with hc | hc
    · exact hchildren c hc
    · exact hextras hafter c hc

/-- A tree of the grammar: the tree of a text, or any other tree of that shape. -/
def Grammatical (t : Node) : Prop := (∃ source, parse? source = some t) ∨ Shaped t

theorem Grammatical.shaped {t : Node} (h : Grammatical t) : Shaped t := by
  rcases h with ⟨source, hparse⟩ | hshaped
  · exact shaped_of_parse? hparse
  · exact hshaped

end DecisionScore.Python
