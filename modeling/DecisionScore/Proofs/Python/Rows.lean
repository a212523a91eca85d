import DecisionScore.Proofs.Python.Places
import DecisionScore.Proofs.Python.Tidy

/-! # Rows of constructs

A construct of a parsed tree starts at a character of the text other than a line break, and its row
is the number of line breaks before that character (`rows_of_parse?`).  The row of a phrase is that
of its first part.  Phrases of all but a few nonterminals start with a token that starts with such a
character (`isAnchored`, read off the rules by `anchorsOr`), and constructs are phrases of such
nonterminals.

Whatever the tree, a walk scores lines of its constructs only (`exists_construct_of_mem_keys`).  What
a line has to do with a text is a matter of where the constructs start in it (`StartsIn`). -/

namespace DecisionScore.Python

open Grammar

/-! ### Where a phrase starts -/

/-- Whether a phrase always starts with a character other than a line break. -/
def isAnchored : Nonterminal → Bool
  | .module | .block | .matchBlock | .stringContent => false
  | _ => true

/-- Whether all phrases of a rule start with a character other than a line break; `blank` where a
phrase may also be empty. -/
def anchorsOr (blank : Bool) : PhraseRule → Bool
  | .blank => blank
  | .token t => t.isAnchored
  | .ref n => isAnchored n
  | .seq a b => anchorsOr false a || (anchorsOr true a && anchorsOr blank b)
  | .alt a b => anchorsOr blank a && anchorsOr blank b
  | .many1 c => anchorsOr false c
  | .prec _ r | .assoc _ r | .prefer _ r | .role _ r | .shownAs _ r => anchorsOr blank r

/-- The parts of the symbol start with a character other than a line break. -/
def IsAnchoredSymbol : PhraseSymbol → Prop
  | .token t => t.isAnchored = true
  | .ref n => isAnchored n = true
  | .rep i => ∃ r, spec.contents[i]? = some r ∧ anchorsOr false r = true

theorem isFirstCheck_anchorsOr (number : PhraseRule → Nat) :
    Rule.IsFirstCheck number (fun c => spec.contents[number c]? = some c)
      (fun s => IsAnchoredSymbol s.symbol) (fun blank _ r => anchorsOr blank r = true) where
  blank h := h
  token h := h
  ref h := h
  many1 hc h := ⟨_, hc, h⟩
  seq h := by rwa [anchorsOr, Bool.or_eq_true, Bool.and_eq_true] at h
  alt h := Bool.and_eq_true_iff.mp h
  prec h := h
  assoc h := h
  prefer h := h
  role h := h
  shownAs h := h

/-- Where all phrases of a rule start with a character other than a line break, its bodies start
with an anchored symbol. -/
theorem exists_anchored_symbol {r : PhraseRule} (h : anchorsOr false r = true)
    (hnumber : ∀ c ∈ r.repeated, spec.contents[spec.contents.idxOf c]? = some c) :
    ∀ b ∈ spec.bodiesOf r, ∃ s ss, b.steps = s :: ss ∧ IsAnchoredSymbol s.symbol := by
  intro b hb
  rcases (isFirstCheck_anchorsOr _).first_step h hnumber b hb with ⟨-, hfalse⟩ | hfirst
  · cases hfalse
  · exact hfirst

/-! ### What is shown as a construct -/

/-- Whether a rule shows none of its parts as a construct. -/
def showsNoConstruct : PhraseRule → Bool
  | .blank | .token _ | .ref _ | .many1 _ => true
  | .seq a b | .alt a b => showsNoConstruct a && showsNoConstruct b
  | .prec _ r | .assoc _ r | .prefer _ r | .role _ r => showsNoConstruct r
  | .shownAs k r => k.construct?.isNone && showsNoConstruct r

theorem isCheck_showsNoConstruct (number : PhraseRule → Nat) :
    Rule.IsCheck number (fun _ => True) (fun s => ∀ k ∈ s.shownAs, k.construct? = none)
      (fun m r => showsNoConstruct r = true ∧ ∀ k ∈ m.shownAs, k.construct? = none) where
  token h := h.2
  ref h := h.2
  many1 _ h := h.2
  seq h := by
    obtain ⟨ha, hb⟩ := Bool.and_eq_true_iff.mp h.1
    exact ⟨⟨ha, h.2⟩, hb, h.2⟩
  alt h := by
    obtain ⟨ha, hb⟩ := Bool.and_eq_true_iff.mp h.1
    exact ⟨⟨ha, h.2⟩, hb, h.2⟩
  prec h := h
  assoc h := h
  prefer h := h
  role h := h
  shownAs h := by
    obtain ⟨hk, hr⟩ := Bool.and_eq_true_iff.mp h.1
    exact ⟨hr, by simpa using hk⟩

/-! ### The rules -/

theorem anchorsOr_rule (n : Nonterminal) : (!isAnchored n || anchorsOr false (rule n)) = true := by
  cases n <;> decide

theorem showsNoConstruct_rule (n : Nonterminal) : showsNoConstruct (rule n) = true := by
  cases n <;> decide

theorem showsNoConstruct_repeated (n : Nonterminal) :
    (rule n).repeated.all showsNoConstruct = true := by
  cases n <;> decide

theorem construct?_kind? (t : Token) : ∀ k ∈ t.kind?, k.construct? = none := by
  cases t <;> simp [Token.kind?, Kind.construct?]

/-- The nonterminals of constructs. -/
theorem isAnchored_of_shown (n : Nonterminal) :
    ∀ k ∈ shown n, k.construct?.isSome = true → isAnchored n = true := by
  cases n <;> simp [shown, Kind.construct?, isAnchored]

theorem construct?_isExtra {k : Kind} (h : k.isExtra = true) : k.construct? = none := by
  cases k <;> simp_all [Kind.isExtra, Kind.construct?]

/-- No step shows its part as a construct. -/
theorem construct?_step {p : Production Kind Role} (hp : p ∈ table.productions) :
    ∀ s ∈ p.steps.toList, ∀ k ∈ s.shownAs, k.construct? = none := by
  have hsteps : ∀ {head : Nat} {b : Body PhraseSymbol Kind Role},
      (∀ s ∈ b.steps, ∀ k ∈ s.shownAs, k.construct? = none) →
      ∀ s ∈ (spec.production head b).steps.toList, ∀ k ∈ s.shownAs, k.construct? = none := by
    intro head b hb s hs
    obtain ⟨s', hs', rfl⟩ := List.mem_map.mp hs
    rw [spec.number_eq]
    exact hb s' hs'
  have hbody : ∀ {r : PhraseRule} {b : Body PhraseSymbol Kind Role}, showsNoConstruct r = true →
      b ∈ spec.bodiesOf r → ∀ s ∈ b.steps, ∀ k ∈ s.shownAs, k.construct? = none :=
    fun hr hb => (isCheck_showsNoConstruct _).forall_steps ⟨hr, by simp⟩ (fun _ _ => trivial) _ hb
  rcases Spec.mem_productions (List.mem_toArray.mp hp) with
    ⟨n, -, b, hb, rfl⟩ | ⟨i, r, hr, b, hb, rfl⟩
  · exact hsteps (hbody (showsNoConstruct_rule n) hb)
  · refine hsteps ?_
    rcases List.mem_cons.mp hb with rfl | hb
    · simp [Spec.twice]
    · obtain ⟨n, -, hn⟩ := Spec.mem_contents.mp (List.mem_of_getElem? hr)
      exact hbody (List.all_eq_true.mp (showsNoConstruct_repeated n) r hn) hb

/-! ### Parts -/

variable {text : List Char}

/-- Every construct of a tree starts in a row that has something on it. -/
def ConstructsIn (text : List Char) (t : Node) : Prop :=
  ∀ m ∈ nodesFrom t, m.kind.construct?.isSome = true → IsInhabited text m.row

theorem constructsIn_node {k : Kind} {row : Nat} {cs : List Node}
    (h : k.construct?.isSome = true → IsInhabited text row) (hcs : ∀ c ∈ cs, ConstructsIn text c)
    (r : Option Role) (s : String) : ConstructsIn text (.node k r row s cs) := by
  intro m hm
  rw [nodesFrom_eq] at hm
  rcases List.mem_cons.mp hm with rfl | hm
  · exact h
  · obtain ⟨c, hc, hm⟩ := List.mem_flatMap.mp hm
    exact hcs c hc m hm

theorem ConstructsIn.inRole {c : Node} (h : ConstructsIn text c) (r : Option Role) :
    ConstructsIn text (c.inRole r) := by
  obtain ⟨k, r', row, s, cs⟩ := c
  have hself := h _ (mem_nodesFrom_self _)
  exact constructsIn_node hself (fun d hd m hm => h m (mem_nodesFrom_of_child hd hm)) r s

/-- The part read for a symbol: its constructs, itself included, start in rows that have something
on them, and so does the part where its symbol says so. -/
structure PlacedFor (text : List Char) (x : Sym) (p : Part Kind Role) : Prop where
  children : ∀ c ∈ p.children, ConstructsIn text c
  kind : ∀ k ∈ p.kind, k.construct?.isSome = true → IsInhabited text p.row
  row : ∀ y, spec.symbolIndex y = x → IsAnchoredSymbol y → IsInhabited text p.row

/-- The trees of a part that is not made a construct where it stands. -/
theorem PlacedFor.trees {x : Sym} {p : Part Kind Role} (h : PlacedFor text x p) {k : Option Kind}
    (hk : ∀ k' ∈ k, k'.construct? = none) (r : Option Role) :
    ∀ c ∈ p.trees r k, ConstructsIn text c := by
  unfold Part.trees
  split
  · rename_i k' hk'
    intro c hc
    obtain rfl := List.mem_singleton.mp hc
    refine constructsIn_node (fun hconstruct => ?_) h.children r p.text
    cases k with
    | none => exact h.kind k' hk' hconstruct
    | some k =>
        obtain rfl : k = k' := Option.some.inj hk'
        rw [hk k rfl] at hconstruct
        cases hconstruct
  · cases hcs : p.children with
    | nil => simp [labelFirst]
    | cons d ds =>
        have hall := hcs ▸ h.children
        cases r with
        | none => exact hall
        | some r =>
            intro c hc
            rcases List.mem_cons.mp hc with rfl | hc
            · exact (hall d List.mem_cons_self).inRole _
            · exact hall c (List.mem_cons_of_mem d hc)

theorem IsExtraLeaf.constructsIn {p : Part Kind Role} (h : IsExtraLeaf p) :
    ∀ c ∈ p.trees none none, ConstructsIn text c := by
  obtain ⟨k, hk, htrees⟩ := h.trees
  rw [htrees]
  intro c hc
  obtain rfl := List.mem_singleton.mp hc
  refine constructsIn_node (fun hconstruct => ?_) (by simp) none p.text
  rw [construct?_isExtra hk] at hconstruct
  cases hconstruct

/-- A body whose first symbol is anchored starts in a row that has something on it. -/
theorem isInhabited_body {head row : Nat} {b : Body PhraseSymbol Kind Role}
    (hb : ∃ s ss, b.steps = s :: ss ∧ IsAnchoredSymbol s.symbol) {parts : List (Part Kind Role)}
    (h : Matches (PlacedFor text) IsExtraLeaf (spec.production head b).symbols parts)
    (ht : Tight parts) (hrow : ∀ q ∈ parts.head?, row = q.row) : IsInhabited text row := by
  obtain ⟨s, ss, hsteps, hanchored⟩ := hb
  rw [symbols_production, hsteps] at h
  obtain ⟨q, qs, rfl, -, hq⟩ := h.exists_cons ht
  rw [hrow q rfl]
  exact hq.row s.symbol rfl hanchored

/-- **A completed production** starts where its first part does. -/
theorem placedFor_production {p : Production Kind Role} (hp : p ∈ table.productions)
    {parts : List (Part Kind Role)} (h : Matches (PlacedFor text) IsExtraLeaf p.symbols parts)
    (ht : Tight parts) {row : Nat} (hrow : ∀ q ∈ parts.head?, row = q.row) :
    PlacedFor text (.node p.head)
      ⟨(table.shown[p.head]?).join, row, "", assemble p.steps.toList parts, false⟩ := by
  have hchildren : ∀ c ∈ assemble p.steps.toList parts, ConstructsIn text c := by
    refine Matches.forall_assemble h (fun q hq => hq.constructsIn) ?_
    exact fun s hs q hq => hq.trees (construct?_step hp s hs) s.role
  rcases Spec.mem_productions (List.mem_toArray.mp hp) with
    ⟨n, -, b, hb, rfl⟩ | ⟨i, r, hr, b, hb, rfl⟩
  · have hkind : (table.shown[spec.nonterminalIndex n]?).join = shown n :=
      wellNumbered_spec.shown_nonterminal n
    have hplaced : isAnchored n = true → IsInhabited text row := by
      intro hn
      have hrule : anchorsOr false (rule n) = true := by
        have := anchorsOr_rule n
        simpa [hn] using this
      have hfirst := exists_anchored_symbol hrule (getElem?_contents_rule n) b hb
      exact isInhabited_body hfirst h ht hrow
    refine ⟨hchildren, ?_, ?_⟩
    · dsimp only [Spec.production]
      rw [hkind]
      exact fun k hk hconstruct => hplaced (isAnchored_of_shown n k hk hconstruct)
    · intro y hy hanchored
      obtain rfl : y = .ref n := wellNumbered_spec.symbolIndex_injective hy
      exact hplaced hanchored
  · have hkind : (table.shown[spec.nonterminals.length + i]?).join = none :=
      spec.shown_repetition i
    refine ⟨hchildren, ?_, ?_⟩
    · dsimp only [Spec.production]
      rw [hkind]
      simp
    · intro y hy hanchored
      obtain rfl : y = .rep i := wellNumbered_spec.symbolIndex_injective hy
      rcases List.mem_cons.mp hb with rfl | hb
      · exact isInhabited_body ⟨_, _, rfl, hanchored⟩ h ht hrow
      · obtain ⟨r', hr', hcontent⟩ := hanchored
        obtain rfl := Option.some.inj (hr'.symm.trans hr)
        have hnumber := getElem?_contents_content (List.mem_of_getElem? hr)
        exact isInhabited_body (exists_anchored_symbol hcontent hnumber b hb) h ht hrow

/-! ### Readings -/

/-- A token with the kind of its number, in a row that has something on it where the token starts
with a character of its own. -/
def IsPlacedToken (text : List Char) (l : Lexeme Kind) : Prop :=
  ∃ t : Token, l.token = t.index ∧ l.kind = t.kind? ∧
    (t.isAnchored = true → IsInhabited text l.row)

theorem isAnchored_keyword (t : Token) (h : t.index < keywordCount) : t.isAnchored = true := by
  revert h
  cases t <;> decide

theorem closed_placedFor (text : List Char) : Closed table reader (fun p => p.cursor.InText text)
    (IsPlacedToken text) (PlacedFor text) IsExtraLeaf where
  read hp h := by
    obtain ⟨s, hs, hpair⟩ := Option.map_eq_some_iff.mp h
    obtain ⟨rfl, rfl⟩ := Prod.mk.inj hpair
    have hin := Lexer.inText_read hp hs
    exact ⟨⟨s.token, rfl, rfl, fun ht => hin.first.isInhabited (hin.atChar ht)⟩, hin.last⟩
  reread {l l'} hl h := by
    obtain ⟨t, ht, -, hrow⟩ := hl
    simp only [reader] at h
    split at h
    · rename_i hkeyword
      obtain rfl := Option.some.inj h
      exact ⟨.identifier, rfl, rfl, fun _ => hrow (isAnchored_keyword t (ht ▸ hkeyword))⟩
    · cases h
  token {l} h := by
    obtain ⟨t, ht, hkind, hrow⟩ := h
    refine ⟨by simp, fun k hk hconstruct => ?_, fun y hy hanchored => ?_⟩
    · rw [construct?_kind? t k (hkind ▸ hk)] at hconstruct
      cases hconstruct
    · obtain rfl : y = .token t :=
        wellNumbered_spec.symbolIndex_injective (hy.trans (congrArg Sym.token ht))
      exact hrow hanchored
  extras {l} h he := by
    obtain ⟨t, ht, hkind, -⟩ := h
    exact closed_standsFor.extras ⟨t, ht, hkind⟩ he
  production _ hp h ht hrow := placedFor_production hp h ht hrow

/-- **Every construct of a parsed tree** starts at a character other than a line break, in the row
that the line breaks before it make. -/
theorem rows_of_parse? {source : String} {t : Node} (h : parse? source = some t) :
    ConstructsIn source.toList t := by
  obtain ⟨before, whole, after, hbefore, hwhole, hafter, rfl⟩ :=
    parse?_spec (closed_placedFor source.toList) wellFormed_table (Cursor.inText_start _) h
  have hextras : ∀ {ps : List (Part Kind Role)}, (∀ p ∈ ps, IsExtraLeaf p) →
      ∀ c ∈ ps.flatMap (·.trees none none), ConstructsIn source.toList c := by
    intro ps hps c hc
    obtain ⟨p, hp, hc⟩ := List.mem_flatMap.mp hc
    exact (hps p hp).constructsIn c hc
  refine constructsIn_node (fun hconstruct => by cases hconstruct) ?_ none ""
  intro c hc
  rcases List.mem_append.mp hc with hc | hc
  · exact hextras hbefore c hc
  · rcases List.mem_append.mp hc with hc | hc
    · exact hwhole.children c hc
    · exact hextras hafter c hc

/-! ### Where constructs start -/

/-- Where the constructs of a tree start in a text, as a parser has it: the construct that is node
number `i` of the tree starts at character number `start i`. -/
structure StartsIn (source : String) (t : Node) (start : Nat → Nat) : Prop where
  /-- The row of a construct is the number of line breaks before its first character. -/
  row : ∀ i n, (nodesFrom t)[i]? = some n → n.kind.construct?.isSome = true →
    n.row = (source.toList.take (start i)).count '\n'
  /-- The first character of a construct is not a line break. -/
  first : ∀ i n, (nodesFrom t)[i]? = some n → n.kind.construct?.isSome = true →
    ∃ c, source.toList[start i]? = some c ∧ c ≠ '\n'

theorem StartsIn.constructsIn {source : String} {t : Node} {start : Nat → Nat}
    (h : StartsIn source t start) : ConstructsIn source.toList t := by
  intro n hn hconstruct
  obtain ⟨i, hi⟩ := List.getElem?_of_mem hn
  obtain ⟨c, hc, hne⟩ := h.first i n hi hconstruct
  obtain ⟨hlt, rfl⟩ := List.getElem?_eq_some_iff.mp hc
  refine ⟨source.toList.take (start i), _, source.toList.drop (start i + 1), ?_, hne,
    h.row i n hi hconstruct⟩
  rw [List.getElem_cons_drop, List.take_append_drop]

/-- The trees that are parsed here have such places. -/
theorem startsIn_of_parse? {source : String} {t : Node} (h : parse? source = some t) :
    ∃ start, StartsIn source t start := by
  have hplace : ∀ i : Nat, ∃ place, ∀ n : Node, (nodesFrom t)[i]? = some n →
      n.kind.construct?.isSome = true → n.row = (source.toList.take place).count '\n' ∧
        ∃ c, source.toList[place]? = some c ∧ c ≠ '\n' := by
    intro i
    by_cases hi : ∃ n, (nodesFrom t)[i]? = some n ∧ n.kind.construct?.isSome = true
    · obtain ⟨n, hn, hconstruct⟩ := hi
      obtain ⟨before, c, after, htext, hc, hrow⟩ :=
        rows_of_parse? h n (List.mem_of_getElem? hn) hconstruct
      refine ⟨before.length, fun m hm _ => ?_⟩
      obtain rfl : n = m := Option.some.inj (hn.symm.trans hm)
      rw [htext, List.take_left, List.getElem?_append_right (Nat.le_refl _), Nat.sub_self]
      exact ⟨hrow, c, rfl, hc⟩
    · exact ⟨0, fun n hn hconstruct => absurd ⟨n, hn, hconstruct⟩ hi⟩
  choose start hstart using hplace
  exact ⟨start, fun i n hn hc => (hstart i n hn hc).1, fun i n hn hc => (hstart i n hn hc).2⟩

/-! ### The constructs that are scored -/

theorem mem_nodesFrom_of_mem_children {t n c : Node} (hn : n ∈ nodesFrom t)
    (hc : c ∈ n.children) : c ∈ nodesFrom t := by
  induction t using Tree.childInduction with
  | node t ih =>
      rw [nodesFrom_eq] at hn
      rcases List.mem_cons.mp hn with rfl | hn
      · exact mem_nodesFrom_of_child hc (mem_nodesFrom_self c)
      · obtain ⟨d, hd, hn⟩ := List.mem_flatMap.mp hn
        exact mem_nodesFrom_of_child hd (ih d hd hn)

namespace Walk

/-- A task on nodes of a tree, of which only `elif` clauses are scored as such. -/
def Task.Within (t : Node) : Task → Prop
  | .visit n | .condition n => n ∈ nodesFrom t
  | .elif n => n ∈ nodesFrom t ∧ n.kind = .elifClause
  | .endCondition | .ascend | .closeMethod | .closeClass => True

section
variable {t : Node}

theorem within_marked {cs : List Node} (h : ∀ c ∈ cs, c ∈ nodesFrom t) (i : Option Nat) :
    ∀ u ∈ marked i cs, u.Within t := by
  induction cs generalizing i with
  | nil => simp [marked]
  | cons c cs ih =>
      obtain ⟨hc, hcs⟩ := List.forall_mem_cons.mp h
      rcases i with - | - | i
      · exact List.forall_mem_cons.mpr ⟨hc, ih hcs none⟩
      · exact List.forall_mem_cons.mpr ⟨hc, ih hcs none⟩
      · exact List.forall_mem_cons.mpr ⟨hc, ih hcs (some i)⟩

theorem within_branchTasks {n : Node} (h : n ∈ nodesFrom t) : ∀ u ∈ branchTasks n, u.Within t := by
  intro u hu
  rcases List.mem_append.mp hu with hu | hu
  · cases hc : n.child? .condition with
    | none => simp [hc] at hu
    | some c =>
        obtain rfl : u = .condition c := by simpa [hc] using hu
        exact mem_nodesFrom_of_mem_children h (Tree.mem_of_child? hc)
  · cases hb : n.child? .consequence with
    | none => simp [hb] at hu
    | some b =>
        obtain rfl : u = .visit b := by simpa [hb] using hu
        exact mem_nodesFrom_of_mem_children h (Tree.mem_of_child? hb)

theorem within_alternativeTasks {n : Node} (h : n ∈ nodesFrom t) :
    ∀ u ∈ alternativeTasks n, u.Within t := by
  intro u hu
  unfold alternativeTasks at hu
  split at hu
  · next hkind =>
      obtain rfl := List.mem_singleton.mp hu
      exact ⟨h, hkind⟩
  · rw [visits_eq_marked] at hu
    exact within_marked (fun c hc => mem_nodesFrom_of_mem_children h hc) none u hu
  · cases hu

theorem within_closing (k : Kind) : ∀ u ∈ closing k, u.Within t := by
  intro u hu
  cases k
  case functionDefinition => rw [List.mem_singleton.mp hu]; trivial
  case classDefinition => rw [List.mem_singleton.mp hu]; trivial
  case whileStatement => rw [List.mem_singleton.mp hu]; trivial
  case forStatement => rw [List.mem_singleton.mp hu]; trivial
  all_goals cases hu

/-- The tasks that follow from a visit are on the children. -/
theorem within_visit {n : Node} (h : n ∈ nodesFrom t) (w : Walker) :
    ∀ u ∈ (visit w n).2, u.Within t := by
  have hchildren : ∀ c ∈ n.children, c ∈ nodesFrom t :=
    fun c hc => mem_nodesFrom_of_mem_children h hc
  by_cases hif : n.kind = .ifStatement
  · have htasks : (visit w n).2 = branchTasks n ++ n.children.flatMap alternativeTasks ++
        List.replicate (levelsOf n) .ascend := by
      rw [visit, hif]
    rw [htasks]
    intro u hu
    rcases List.mem_append.mp hu with hu | hu
    · rcases List.mem_append.mp hu with hu | hu
      · exact within_branchTasks h u hu
      · obtain ⟨c, hc, hu⟩ := List.mem_flatMap.mp hu
        exact within_alternativeTasks (hchildren c hc) u hu
    · rw [List.eq_of_mem_replicate hu]
      trivial
  · have htasks : ∃ i, (visit w n).2 = marked i n.children ++ closing n.kind := by
      by_cases helif : isElif n = true
      · have hkind : n.kind = .elifClause := eq_of_beq helif
        refine ⟨none, ?_⟩
        rw [← visits_eq_marked]
        simp only [visit, hkind, closing, List.append_nil]
      · exact ⟨_, visit_tasks hif (Bool.eq_false_iff.mpr helif) w⟩
    obtain ⟨i, htasks⟩ := htasks
    rw [htasks]
    exact List.forall_mem_append.mpr ⟨within_marked hchildren i, within_closing n.kind⟩

/-- **One task** leads to tasks on nodes of the same tree. -/
theorem Task.Within.step {u : Task} (h : u.Within t) (w : Walker) :
    ∀ v ∈ (step w u).2, v.Within t := by
  cases u with
  | visit n => exact within_visit h w
  | condition n => simpa [Walk.step, Task.Within] using h
  | elif n => exact within_branchTasks h.1
  | _ => simp [Walk.step]

/-- What a task scores is a construct of the tree. -/
theorem Task.Within.registration {u : Task} (h : u.Within t) {w : Walker} {r : Registration}
    (hr : act? w u = some (.score r)) :
    r.node ∈ nodesFrom t ∧ r.node.kind.construct?.isSome = true := by
  cases u with
  | visit n =>
      have hnode : r.node = n ∧ n.kind.construct?.isSome = true := by
        simp only [act?, visitAct?] at hr
        split at hr
        all_goals
          first
            | (cases hr; simp [*, Kind.construct?])
            | (split at hr <;> cases hr)
            | cases hr
      exact hnode.1.symm ▸ ⟨h, hnode.2⟩
  | elif n =>
      obtain rfl : r = _ := (Act.score.inj (Option.some.inj hr)).symm
      refine ⟨h.1, ?_⟩
      rw [h.2]
      rfl
  | _ => cases hr

/-- **A whole run** scores constructs of the tree. -/
theorem of_mem_scored (us : List Task) (w : Walker) (h : ∀ u ∈ us, u.Within t) :
    ∀ r ∈ scored us w, r.node ∈ nodesFrom t ∧ r.node.kind.construct?.isSome = true := by
  induction us, w using run.induct with
  | case1 w => simp [scored]
  | case2 u us w ih =>
      obtain ⟨hu, hus⟩ := List.forall_mem_cons.mp h
      have hrest := ih (List.forall_mem_append.mpr ⟨hu.step w, hus⟩)
      intro r hr
      rw [scored, acts_cons, List.filterMap_append] at hr
      rcases List.mem_append.mp hr with hr | hr
      · obtain ⟨a, ha, hr⟩ := List.mem_filterMap.mp hr
        have hact : act? w u = some a := Option.mem_toList.mp ha
        cases a with
        | score r' =>
            obtain rfl := Option.some.inj hr
            exact hu.registration hact
        | _ => cases hr
      · exact hrest r hr

/-- **A line with a score** is that of a construct, whatever the tree. -/
theorem exists_construct_of_mem_keys {line : Nat} (h : line ∈ (breakdown t).lineScores.keys) :
    ∃ n ∈ nodesFrom t, n.kind.construct?.isSome = true ∧ line = n.row + 1 := by
  have hlines : (breakdown t).lineScores = (scored [.visit t] .initial).foldl
      (fun m r => m.upsert r.line fun n => n.getD 0 + r.dc) ∅ := by
    rw [breakdown_result]
    exact foldl_perform (·.lineScores) _ (fun b r => by rw [r.addTo_eq]) (fun _ _ => rfl)
      (fun _ _ => rfl) (fun _ _ => rfl) _ _
  rw [SortedMap.mem_keys, hlines, SortedMap.get?_foldl_upsert Registration.line] at h
  have hne : (scored [.visit t] .initial).filter (fun r => r.line = line) ≠ [] := by
    intro hnil
    rw [hnil] at h
    cases h
  obtain ⟨r, hr⟩ := List.exists_mem_of_ne_nil _ hne
  obtain ⟨hr, hline⟩ := List.mem_filter.mp hr
  have hroot : ∀ u ∈ [Task.visit t], u.Within t :=
    List.forall_mem_singleton.mpr (mem_nodesFrom_self t)
  obtain ⟨hnode, hconstruct⟩ := of_mem_scored _ _ hroot r hr
  exact ⟨r.node, hnode, hconstruct, (of_decide_eq_true hline).symm⟩

end

end Walk

end DecisionScore.Python
