import Mathlib.Data.List.Forall2
import DecisionScore.Proofs.Python.Statements
import DecisionScore.Proofs.Python.Weights

/-! # Scores do not depend on spelling

The walk reads the text of a leaf in one place: for the name of a definition.  So two trees that
differ in their texts only (`unspelled`) are walked alike: alike tasks do alike and schedule alike
tasks (`alike_step`), to the end of both walks (`alike_acts`).  What the walks do is then the same
but for the names of the scopes they open, and these reach nothing but the two maps of closed
scopes.  If they are renamed one to one, so are the keys of the maps
(`Docket.Alike.byName_perm`). -/

namespace DecisionScore.Python

open Walk

/-! ### Trees that differ in their texts -/

mutual

/-- The tree without its texts. -/
def unspelled : Node → Node
  | .node k r row _ cs => .node k r row "" (unspelledAll cs)

/-- The trees without their texts. -/
def unspelledAll : List Node → List Node
  | [] => []
  | c :: cs => unspelled c :: unspelledAll cs

end

/-- Two trees that differ in their texts only, the names of their definitions being related. -/
inductive Respelled (R : ScopeKind → String → String → Prop) : Node → Node → Prop
  | node {k : Kind} {r : Option Role} {row : Nat} {s s' : String} {cs cs' : List Node}
    (names : ∀ kind : ScopeKind, k = kind.definition →
      R kind (nameOf (.node k r row s cs)) (nameOf (.node k r row s' cs')))
    (below : List.Forall₂ (Respelled R) cs cs') :
    Respelled R (.node k r row s cs) (.node k r row s' cs')

theorem unspelledAll_eq (cs : List Node) : unspelledAll cs = cs.map unspelled := by
  induction cs with
  | nil => rfl
  | cons c cs ih => rw [unspelledAll, ih, List.map_cons]

theorem map_kind_unspelled (t : Node) :
    (nodesFrom (unspelled t)).map Tree.kind = (nodesFrom t).map Tree.kind := by
  induction t using Tree.childInduction with
  | node t ih =>
      cases t with
      | node k r row s cs =>
          rw [unspelled, nodesFrom_eq, nodesFrom_eq, List.map_cons, List.map_cons, List.map_flatMap,
            List.map_flatMap]
          refine congrArg (k :: ·) ?_
          show List.flatMap _ (unspelledAll cs) = _
          rw [unspelledAll_eq, List.flatMap_map]
          exact List.flatMap_congr ih

theorem length_definitionNames (k : ScopeKind) {t u : Node} (h : unspelled t = unspelled u) :
    (definitionNames k t).length = (definitionNames k u).length := by
  have hcount : ∀ t, (definitionNames k t).length =
      ((nodesFrom (unspelled t)).map Tree.kind).countP fun kind => kind = k.definition := by
    intro t
    rw [map_kind_unspelled, List.countP_map, definitionNames, List.length_map,
      ← List.countP_eq_length_filter]
    rfl
  rw [hcount, hcount, h]

/-- What trees without their texts have in common. -/
theorem unspelled_eq_iff {t u : Node} : unspelled t = unspelled u ↔
    t.kind = u.kind ∧ t.role = u.role ∧ t.row = u.row ∧
      t.children.map unspelled = u.children.map unspelled := by
  cases t
  cases u
  rw [unspelled, unspelled, unspelledAll_eq, unspelledAll_eq]
  simp [Tree.kind, Tree.role, Tree.row, Tree.children]

theorem respelled_of {R : ScopeKind → String → String → Prop} {t u : Node}
    (hkind : t.kind = u.kind) (hrole : t.role = u.role) (hrow : t.row = u.row)
    (names : ∀ k : ScopeKind, t.kind = k.definition → R k (nameOf t) (nameOf u))
    (below : List.Forall₂ (Respelled R) t.children u.children) : Respelled R t u := by
  cases t
  cases u
  obtain rfl := hkind
  obtain rfl := hrole
  obtain rfl := hrow
  exact .node names below

/-- Lists are related piece by piece if the pieces have the same lengths. -/
theorem forall₂_append_iff {α β : Type*} {P : α → β → Prop} {as as' : List α} {bs bs' : List β}
    (h : as.length = bs.length) : List.Forall₂ P (as ++ as') (bs ++ bs') ↔
      List.Forall₂ P as bs ∧ List.Forall₂ P as' bs' := by
  induction as generalizing bs with
  | nil =>
      obtain rfl : bs = [] := List.eq_nil_of_length_eq_zero h.symm
      simp
  | cons a as ih =>
      cases bs with
      | nil => cases h
      | cons b bs => simp [ih (Nat.succ.inj h), and_assoc]

theorem forall₂_respelled {R : ScopeKind → String → String → Prop} {ts us : List Node}
    (ih : ∀ t ∈ ts, ∀ u, unspelled t = unspelled u →
      (∀ k, List.Forall₂ (R k) (definitionNames k t) (definitionNames k u)) → Respelled R t u)
    (h : ts.map unspelled = us.map unspelled)
    (hR : ∀ k, List.Forall₂ (R k) (ts.flatMap (definitionNames k))
      (us.flatMap (definitionNames k))) : List.Forall₂ (Respelled R) ts us := by
  induction ts generalizing us with
  | nil =>
      obtain rfl : us = [] := List.map_eq_nil_iff.mp h.symm
      exact .nil
  | cons t ts ihs =>
      cases us with
      | nil => cases h
      | cons u us =>
          obtain ⟨hhead, htail⟩ := List.cons.inj h
          have hsplit := fun k => (forall₂_append_iff (length_definitionNames k hhead)).mp (hR k)
          exact .cons (ih t List.mem_cons_self u hhead fun k => (hsplit k).1)
            (ihs (fun c hc => ih c (List.mem_cons_of_mem t hc)) htail fun k => (hsplit k).2)

/-- Trees that differ in their texts only, if their definitions have related names. -/
theorem respelled_of_names {R : ScopeKind → String → String → Prop} {t u : Node}
    (h : unspelled t = unspelled u)
    (hR : ∀ k, List.Forall₂ (R k) (definitionNames k t) (definitionNames k u)) :
    Respelled R t u := by
  induction t using Tree.childInduction generalizing u with
  | node t ih =>
      obtain ⟨hkind, hrole, hrow, hchildren⟩ := unspelled_eq_iff.mp h
      have hsplit : ∀ k : ScopeKind,
          (t.kind = k.definition → R k (nameOf t) (nameOf u)) ∧
          List.Forall₂ (R k) (namesBelow k t) (namesBelow k u) := by
        intro k
        have hk := hR k
        rw [definitionNames_eq, definitionNames_eq, ← hkind] at hk
        by_cases hdef : t.kind = k.definition
        · rw [if_pos hdef, if_pos hdef, List.singleton_append, List.singleton_append,
            List.forall₂_cons] at hk
          exact ⟨fun _ => hk.1, hk.2⟩
        · rw [if_neg hdef, if_neg hdef, List.nil_append, List.nil_append] at hk
          exact ⟨fun hpos => absurd hpos hdef, hk⟩
      exact respelled_of hkind hrole hrow (fun k => (hsplit k).1)
        (forall₂_respelled (fun c hc _ => ih c hc) hchildren fun k => (hsplit k).2)

/-! ### What the walk asks of a node -/

section

variable {R : ScopeKind → String → String → Prop} {t u : Node}

namespace Respelled

theorem kind_eq (h : Respelled R t u) : t.kind = u.kind := by cases h; rfl

theorem role_eq (h : Respelled R t u) : t.role = u.role := by cases h; rfl

theorem row_eq (h : Respelled R t u) : t.row = u.row := by cases h; rfl

theorem name (h : Respelled R t u) {k : ScopeKind} (hk : t.kind = k.definition) :
    R k (nameOf t) (nameOf u) := by
  cases h with
  | node names _ => exact names k hk

theorem children (h : Respelled R t u) : List.Forall₂ (Respelled R) t.children u.children := by
  cases h with
  | node _ below => exact below

end Respelled

theorem map_eq_of_forall₂ {α β γ : Type*} {P : α → β → Prop} {f : α → γ} {g : β → γ}
    {as : List α} {bs : List β} (h : List.Forall₂ P as bs)
    (hfg : ∀ a ∈ as, ∀ b, P a b → f a = g b) : as.map f = bs.map g := by
  induction h with
  | nil => rfl
  | @cons a b as bs hab _ ih =>
      rw [List.map_cons, List.map_cons, hfg a List.mem_cons_self b hab,
        ih fun c hc => hfg c (List.mem_cons_of_mem a hc)]

theorem rel_find? {α β : Type*} {P : α → β → Prop} {p : α → Bool} {q : β → Bool}
    {as : List α} {bs : List β} (h : List.Forall₂ P as bs) (hpq : ∀ a b, P a b → p a = q b) :
    Option.Rel P (as.find? p) (bs.find? q) := by
  induction h with
  | nil => exact .none
  | @cons a b as bs hab _ ih =>
      rw [List.find?_cons, List.find?_cons, hpq a b hab]
      cases q b with
      | true => exact .some hab
      | false => exact ih

theorem rel_getElem? {α β : Type*} {P : α → β → Prop} {as : List α} {bs : List β}
    (h : List.Forall₂ P as bs) (i : Nat) : Option.Rel P as[i]? bs[i]? := by
  induction h generalizing i with
  | nil => exact .none
  | cons hab _ ih =>
      cases i with
      | zero => exact .some hab
      | succ i => simpa using ih i

namespace Respelled

theorem countP_children (h : Respelled R t u) (p : Kind → Bool) :
    t.children.countP (p ·.kind) = u.children.countP (p ·.kind) := by
  have hmap : t.children.map Tree.kind = u.children.map Tree.kind :=
    map_eq_of_forall₂ h.children fun _ _ _ hc => hc.kind_eq
  have hcount := congrArg (List.countP p) hmap
  rwa [List.countP_map, List.countP_map] at hcount

theorem tokensBelow_eq (label : Option Role) {cs ds : List Node}
    (h : List.Forall₂ (Respelled R) cs ds)
    (htokens : ∀ c ∈ cs, ∀ d, Respelled R c d → ∀ isLabel,
      Condition.tokens isLabel c = Condition.tokens isLabel d) :
    Condition.tokensBelow label cs = Condition.tokensBelow label ds := by
  induction h generalizing label with
  | nil => rw [Condition.tokensBelow]
  | @cons c d cs ds hcd _ ih =>
      obtain ⟨hc, hcs⟩ := List.forall_mem_cons.mp htokens
      rw [Condition.tokensBelow, Condition.tokensBelow, hcd.role_eq, hc d hcd, hc d hcd,
        ih none hcs, ih label hcs]

theorem tokens_eq (h : Respelled R t u) (isLabel : Bool) :
    Condition.tokens isLabel t = Condition.tokens isLabel u := by
  induction t using Tree.childInduction generalizing u isLabel with
  | node t ih =>
      have hshare : Condition.share isLabel t = Condition.share isLabel u := by
        have hcount : Condition.namedCount t = Condition.namedCount u :=
          h.countP_children Kind.isNamed
        rw [Condition.share, Condition.share, h.kind_eq, hcount]
      have hbelow := tokensBelow_eq (Condition.labelRole? u.kind) h.children fun c hc _ hcd =>
        ih c hc hcd
      rw [Condition.tokens_eq, Condition.tokens_eq, hshare, h.kind_eq, hbelow]

theorem weight_eq (h : Respelled R t u) : Condition.weight t = Condition.weight u := by
  rw [Condition.weight_eq_tokens, Condition.weight_eq_tokens, h.tokens_eq]

theorem map_kind_eq (h : Respelled R t u) :
    (nodesFrom t).map Tree.kind = (nodesFrom u).map Tree.kind := by
  induction t using Tree.childInduction generalizing u with
  | node t ih =>
      have hbelow := map_eq_of_forall₂ h.children fun c hc _ hcd => ih c hc hcd
      rw [nodesFrom_eq, nodesFrom_eq, List.map_cons, List.map_cons, h.kind_eq, List.map_flatMap,
        List.map_flatMap, List.flatMap_def, List.flatMap_def, hbelow]

theorem constructs_eq (h : Respelled R t u) : constructs t = constructs u := by
  have hkinds : ∀ n : Node, constructs n =
      (((nodesFrom n).map Tree.kind).drop 1).filterMap Kind.construct? := by
    intro n
    rw [constructs, Nesting.ahead_eq, nodesFrom_eq n, List.map_cons, List.drop_one, List.tail_cons,
      List.filterMap_map]
    simp
  rw [hkinds, hkinds, h.map_kind_eq]

theorem child? (h : Respelled R t u) (r : Role) :
    Option.Rel (Respelled R) (t.child? r) (u.child? r) :=
  rel_find? h.children fun _ _ hc => by rw [hc.role_eq]

theorem secondNamed? (h : Respelled R t u) :
    Option.Rel (Respelled R) (Walk.secondNamed? t) (Walk.secondNamed? u) := by
  have hnamed : List.Forall₂ (Respelled R) (t.children.filter (·.kind.isNamed))
      (u.children.filter (·.kind.isNamed)) :=
    List.rel_filter (fun _ _ hc => by simp [hc.kind_eq]) h.children
  exact rel_getElem? hnamed 1

theorem levelsOf_eq (h : Respelled R t u) : levelsOf t = levelsOf u :=
  congrArg (1 + ·) (h.countP_children (· == .elifClause))

end Respelled

end

end DecisionScore.Python

namespace DecisionScore.Python.Walk

/-! ### What the walk does with it -/

/-- Two constructs that are scored alike. -/
structure Registration.Alike (r r' : Registration) : Prop where
  kind : r.kind = r'.kind
  depth : r.depth = r'.depth
  line : r.line = r'.line
  dc : r.dc = r'.dc
  found : r.found = r'.found

/-- Two acts that differ in related names only. -/
inductive Act.Alike (R : ScopeKind → String → String → Prop) : Act → Act → Prop
  | score {r r' : Registration} (h : r.Alike r') : Alike R (.score r) (.score r')
  | path (inMethod : Bool) : Alike R (.path inMethod) (.path inMethod)
  | openMethod {a b : String} (h : R .methods a b) : Alike R (.openMethod a) (.openMethod b)
  | closeMethod : Alike R .closeMethod .closeMethod
  | openClass {a b : String} (h : R .classes a b) : Alike R (.openClass a) (.openClass b)
  | closeClass : Alike R .closeClass .closeClass

/-- Two tasks at trees that differ in their texts only. -/
inductive Task.Alike (R : ScopeKind → String → String → Prop) : Task → Task → Prop
  | visit {t u : Node} (h : Respelled R t u) : Alike R (.visit t) (.visit u)
  | condition {t u : Node} (h : Respelled R t u) : Alike R (.condition t) (.condition u)
  | endCondition : Alike R .endCondition .endCondition
  | elif {t u : Node} (h : Respelled R t u) : Alike R (.elif t) (.elif u)
  | ascend : Alike R .ascend .ascend
  | closeMethod : Alike R .closeMethod .closeMethod
  | closeClass : Alike R .closeClass .closeClass

/-- Two states of a walk in which it goes the same way. -/
structure Walker.Alike (w v : Walker) : Prop where
  depth : w.depth = v.depth
  inCondition : w.inCondition = v.inCondition
  methods : w.methods.length = v.methods.length

section

variable {R : ScopeKind → String → String → Prop} {t u : Node} {w v : Walker}

theorem alike_registration (h : Respelled R t u) (kind : Construct) {d d' : Nat} (hd : d = d')
    {c c' b b' : Option Node} (hc : Option.Rel (Respelled R) c c')
    (hb : Option.Rel (Respelled R) b b') :
    Registration.Alike ⟨kind, t, d, c, b⟩ ⟨kind, u, d', c', b'⟩ := by
  subst hd
  have htokens : Registration.tokens ⟨kind, t, d, c, b⟩ =
      Registration.tokens ⟨kind, u, d, c', b'⟩ := by
    cases hc with
    | none => rfl
    | some hc => exact hc.weight_eq
  have hfound : Registration.found ⟨kind, t, d, c, b⟩ =
      Registration.found ⟨kind, u, d, c', b'⟩ := by
    cases hb with
    | none => rfl
    | some hb => exact hb.constructs_eq
  exact ⟨rfl, rfl, congrArg (· + 1) h.row_eq, congrArg (contribution kind d) htokens, hfound⟩

/-- A visit does alike. -/
theorem alike_visitAct? (h : Respelled R t u) (hw : w.Alike v) :
    Option.Rel (Act.Alike R) (visitAct? w t) (visitAct? v u) := by
  have hdepth := hw.depth
  have hdeeper := congrArg (· + 1) hw.depth
  unfold visitAct?
  rw [← h.kind_eq]
  cases hkind : t.kind
  case functionDefinition => exact .some (.openMethod (h.name (k := .methods) hkind))
  case classDefinition => exact .some (.openClass (h.name (k := .classes) hkind))
  case ifStatement =>
    exact .some (.score (alike_registration h _ hdeeper (h.child? _) (h.child? _)))
  case whileStatement =>
    exact .some (.score (alike_registration h _ hdeeper (h.child? _) (h.child? _)))
  case forStatement => exact .some (.score (alike_registration h _ hdeeper .none (h.child? _)))
  case tryStatement => exact .some (.score (alike_registration h _ hdepth .none (h.child? _)))
  case conditionalExpression =>
    exact .some (.score (alike_registration h _ hdepth h.secondNamed? .none))
  case booleanOperator =>
    have hempty : w.methods.isEmpty = v.methods.isEmpty := by
      rw [Bool.eq_iff_iff, List.isEmpty_iff_length_eq_zero, List.isEmpty_iff_length_eq_zero,
        hw.methods]
    simp only [hw.inCondition, hempty]
    split
    · exact .some (.path _)
    · exact .none
  all_goals exact .none

/-! ### Where the walk goes from there -/

theorem alike_visits {ns ms : List Node} (h : List.Forall₂ (Respelled R) ns ms) :
    List.Forall₂ (Task.Alike R) (visits ns) (visits ms) :=
  List.rel_map (fun _ _ hn => .visit hn) h

theorem alike_visitsIn (r : Role) {ns ms : List Node} (h : List.Forall₂ (Respelled R) ns ms) :
    List.Forall₂ (Task.Alike R) (visitsIn r ns) (visitsIn r ms) := by
  induction h with
  | nil => exact .nil
  | cons hn hns ih =>
      rw [visitsIn, visitsIn, hn.role_eq]
      split
      · exact .cons (.condition hn) (alike_visits hns)
      · exact .cons (.visit hn) ih

theorem alike_visitsNamed {ns ms : List Node} (h : List.Forall₂ (Respelled R) ns ms)
    (o : Option Nat) : List.Forall₂ (Task.Alike R) (visitsNamed o ns) (visitsNamed o ms) := by
  induction h generalizing o with
  | nil => cases o <;> exact .nil
  | cons hn hns ih =>
      match o with
      | none => exact .cons (.visit hn) (ih none)
      | some 0 =>
          simp only [visitsNamed, hn.kind_eq]
          split
          · exact .cons (.condition hn) (ih none)
          · exact .cons (.visit hn) (ih (some 0))
      | some (j + 1) =>
          simp only [visitsNamed, hn.kind_eq]
          split
          · exact .cons (.visit hn) (ih (some j))
          · exact .cons (.visit hn) (ih (some (j + 1)))

theorem alike_branchTasks (h : Respelled R t u) :
    List.Forall₂ (Task.Alike R) (branchTasks t) (branchTasks u) := by
  have hc := h.child? .condition
  have hb := h.child? .consequence
  unfold branchTasks
  refine List.rel_append ?_ ?_
  · generalize t.child? .condition = c, u.child? .condition = c' at hc
    cases hc with
    | none => exact .nil
    | some hc => exact .cons (.condition hc) .nil
  · generalize t.child? .consequence = b, u.child? .consequence = b' at hb
    cases hb with
    | none => exact .nil
    | some hb => exact .cons (.visit hb) .nil

theorem alike_alternativeTasks (h : Respelled R t u) :
    List.Forall₂ (Task.Alike R) (alternativeTasks t) (alternativeTasks u) := by
  unfold alternativeTasks
  rw [h.kind_eq]
  split
  · exact .cons (.elif h) .nil
  · exact alike_visits h.children
  · exact .nil

theorem alike_alternatives {ns ms : List Node} (h : List.Forall₂ (Respelled R) ns ms) :
    List.Forall₂ (Task.Alike R) (ns.flatMap alternativeTasks) (ms.flatMap alternativeTasks) := by
  induction h with
  | nil => exact .nil
  | cons hn _ ih => exact List.rel_append (alike_alternativeTasks hn) ih

theorem forall₂_replicate (k : Nat) {a b : Task} (h : Task.Alike R a b) :
    List.Forall₂ (Task.Alike R) (List.replicate k a) (List.replicate k b) := by
  induction k with
  | zero => exact .nil
  | succ k ih => exact .cons h ih

/-- A visit schedules alike. -/
theorem alike_visit_tasks (h : Respelled R t u) :
    List.Forall₂ (Task.Alike R) (visit w t).2 (visit v u).2 := by
  have hall := alike_visits h.children
  have hascend := List.Forall₂.cons (Task.Alike.ascend (R := R)) .nil
  unfold visit
  rw [← h.kind_eq]
  cases t.kind
  case functionDefinition => exact List.rel_append hall (.cons .closeMethod .nil)
  case classDefinition => exact List.rel_append hall (.cons .closeClass .nil)
  case ifStatement =>
    rw [h.levelsOf_eq]
    exact List.rel_append (List.rel_append (alike_branchTasks h) (alike_alternatives h.children))
      (forall₂_replicate _ .ascend)
  case whileStatement => exact List.rel_append (alike_visitsIn .condition h.children) hascend
  case forStatement => exact List.rel_append hall hascend
  case conditionalExpression => exact alike_visitsNamed h.children (some 1)
  all_goals exact hall

namespace Walker.Alike

theorem descend (hw : w.Alike v) : w.descend.Alike v.descend :=
  ⟨congrArg (· + 1) hw.depth, hw.inCondition, hw.methods⟩

/-- What leaves the open scopes open keeps states alike. -/
theorem keeps {w' v' : Walker} (h : w.Alike v) (hw : Keeps w w') (hv : Keeps v v') :
    w'.Alike v' := by
  refine ⟨?_, ?_, ?_⟩
  · rw [hw.depth, hv.depth, h.depth]
  · rw [hw.inCondition, hv.inCondition, h.inCondition]
  · have hlength := congrArg List.length hw.methods
    have hlength' := congrArg List.length hv.methods
    have := h.methods
    simp only [names, List.length_map] at hlength hlength'
    omega

theorem register (hw : w.Alike v) {k k' : Construct} {n n' : Node} {c c' b b' : Option Node} :
    (w.register k n c b).Alike (v.register k' n' c' b') :=
  hw.keeps (keeps_register _ _ _ _ _) (keeps_register _ _ _ _ _)

/-- A visit leaves alike states. -/
theorem visit (hw : w.Alike v) (h : Respelled R t u) :
    (Walk.visit w t).1.Alike (Walk.visit v u).1 := by
  unfold Walk.visit
  rw [← h.kind_eq]
  cases t.kind
  case functionDefinition => exact ⟨hw.depth, hw.inCondition, congrArg (· + 1) hw.methods⟩
  case classDefinition => exact ⟨hw.depth, hw.inCondition, hw.methods⟩
  case ifStatement => dsimp only; exact hw.descend.register
  case whileStatement => dsimp only; exact hw.descend.register
  case forStatement => dsimp only; exact hw.descend.register
  case tryStatement => dsimp only; exact hw.register
  case conditionalExpression => dsimp only; exact hw.register
  case booleanOperator => exact hw.keeps (keeps_operator w) (keeps_operator v)
  all_goals exact hw

end Walker.Alike

/-- **One task**: alike tasks do alike, schedule alike tasks and leave alike states. -/
theorem alike_step {a b : Task} (h : Task.Alike R a b) (hw : w.Alike v) :
    Option.Rel (Act.Alike R) (act? w a) (act? v b) ∧
      List.Forall₂ (Task.Alike R) (step w a).2 (step v b).2 ∧ (step w a).1.Alike (step v b).1 := by
  cases h with
  | visit h => exact ⟨alike_visitAct? h hw, alike_visit_tasks h, hw.visit h⟩
  | condition h =>
      exact ⟨.none, .cons (.visit h) (.cons .endCondition .nil),
        hw.depth, congrArg (· + 1) hw.inCondition, hw.methods⟩
  | endCondition => exact ⟨.none, .nil, hw.depth, congrArg (· - 1) hw.inCondition, hw.methods⟩
  | elif h =>
      exact ⟨.some (.score (alike_registration h _ (congrArg (· + 1) hw.depth) (h.child? _)
        (h.child? _))), alike_branchTasks h, hw.descend.register⟩
  | ascend => exact ⟨.none, .nil, congrArg (· - 1) hw.depth, hw.inCondition, hw.methods⟩
  | closeMethod =>
      have hlength := hw.methods
      refine ⟨.some .closeMethod, .nil, ?_⟩
      simp only [step, Walker.closeMethod]
      cases hm : w.methods <;> cases hm' : v.methods <;> rw [hm, hm'] at hlength
      · exact hw
      · cases hlength
      · cases hlength
      · exact ⟨hw.depth, hw.inCondition, Nat.succ.inj hlength⟩
  | closeClass =>
      refine ⟨.some .closeClass, .nil, ?_⟩
      simp only [step, Walker.closeClass]
      split <;> split <;> exact ⟨hw.depth, hw.inCondition, hw.methods⟩

/-- **A whole run**: alike tasks do alike to the end. -/
theorem alike_acts {ts us : List Task} (h : List.Forall₂ (Task.Alike R) ts us) (hw : w.Alike v) :
    List.Forall₂ (Act.Alike R) (acts ts w) (acts us v) := by
  induction ts, w using run.induct generalizing us v with
  | case1 w =>
      cases h
      rw [acts_nil, acts_nil]
      exact .nil
  | case2 a ts w ih =>
      cases h with
      | @cons _ b _ us hab hrest =>
          obtain ⟨hact, htasks, hnext⟩ := alike_step hab hw
          rw [acts_cons, acts_cons]
          refine List.rel_append ?_ (ih (List.rel_append htasks hrest) hnext)
          generalize act? w a = x, act? v b = y at hact
          cases hact with
          | none => exact .nil
          | some hact => exact .cons hact .nil

end

/-! ### The numbers -/

section

variable {R : ScopeKind → String → String → Prop} {as bs : List Act}

theorem Act.Alike.addsPath {a b : Act} (h : Act.Alike R a b) : a.addsPath = b.addsPath := by
  cases h <;> rfl

theorem alike_registrations (h : List.Forall₂ (Act.Alike R) as bs) :
    List.Forall₂ Registration.Alike (as.filterMap Act.registration?)
      (bs.filterMap Act.registration?) := by
  refine List.rel_filterMap (fun a b hab => ?_) h
  cases hab with
  | score h => exact .some h
  | _ => exact .none

/-- What only constructs change. -/
def scoredPart (b : Breakdown) : Nat × SortedMap Nat Nat × Structures :=
  (b.dc, b.lineScores, b.structures)

theorem scoredPart_eq (h : List.Forall₂ (Act.Alike R) as bs) (l : Ledger) :
    scoredPart (as.foldl Ledger.perform l).result =
      scoredPart (bs.foldl Ledger.perform l).result := by
  let f (p : Nat × SortedMap Nat Nat × Structures) (r : Registration) :=
    (p.1 + r.dc, p.2.1.upsert r.line fun n => n.getD 0 + r.dc,
      r.found.foldl (fun s child => s.noteNested r.kind r.depth child)
        (p.2.2.record r.kind r.depth))
  have hscore : ∀ b r, scoredPart (Registration.addTo r b) = f (scoredPart b) r := by
    intro b r
    rw [r.addTo_eq]
    rfl
  have hpart := foldl_perform scoredPart f hscore (fun _ _ => rfl) (fun _ _ => rfl) fun _ _ => rfl
  rw [hpart, hpart]
  refine List.rel_foldl (P := Eq) (fun p p' hp r r' hr => ?_) rfl (alike_registrations h)
  simp only [f, hp, hr.dc, hr.line, hr.kind, hr.depth, hr.found]

theorem cc_eq (h : List.Forall₂ (Act.Alike R) as bs) (l : Ledger) :
    (as.foldl Ledger.perform l).result.cc = (bs.foldl Ledger.perform l).result.cc := by
  have hmap : as.map Act.addsPath = bs.map Act.addsPath :=
    map_eq_of_forall₂ h fun _ _ _ hab => hab.addsPath
  have hcount := congrArg (List.countP id) hmap
  rw [List.countP_map, List.countP_map] at hcount
  rw [foldl_perform_cc, foldl_perform_cc]
  exact congrArg (l.result.cc + ·) hcount

/-! ### The names -/

/-- Two scopes with the same score and related names. -/
def Scope.Alike (P : String → String → Prop) (s s' : Scope) : Prop :=
  P s.name s'.name ∧ s.score = s'.score

/-- Two dockets with alike scopes. -/
structure Docket.Alike (P : String → String → Prop) (d e : Docket) : Prop where
  pending : List.Forall₂ (Scope.Alike P) d.pending e.pending
  closed : List.Forall₂ (Scope.Alike P) d.closed e.closed

namespace Docket.Alike

variable {k : ScopeKind} {P : String → String → Prop} {d e : Docket}

theorem charge (h : d.Alike P e) (x : ScopeScore) : (d.charge x).Alike P (e.charge x) := by
  obtain ⟨pending, closed⟩ := d
  obtain ⟨pending', closed'⟩ := e
  obtain ⟨hpending, hclosed⟩ := h
  cases hpending with
  | nil => exact ⟨.nil, hclosed⟩
  | cons hs hss =>
      have hgain : Scope.Alike P (gain x _) (gain x _) := ⟨hs.1, by simp [gain, hs.2]⟩
      exact ⟨.cons hgain hss, hclosed⟩

theorem opens (h : d.Alike P e) {a b : String} (hab : P a b) : (d.opens a).Alike P (e.opens b) :=
  ⟨.cons ⟨hab, rfl⟩ h.pending, h.closed⟩

theorem closes (h : d.Alike P e) : d.closes.Alike P e.closes := by
  obtain ⟨pending, closed⟩ := d
  obtain ⟨pending', closed'⟩ := e
  obtain ⟨hpending, hclosed⟩ := h
  cases hpending with
  | nil => exact ⟨.nil, hclosed⟩
  | cons hs hss => exact ⟨hss, List.rel_append hclosed (.cons hs .nil)⟩

/-- Alike acts keep dockets alike. -/
theorem perform {a b : Act} (hab : Act.Alike R a b) (h : d.Alike (R k) e) :
    (d.perform k a).Alike (R k) (e.perform k b) := by
  cases hab with
  | score hr =>
      rw [Docket.perform, Docket.perform, hr.dc]
      exact h.charge _
  | path inMethod =>
      rw [Docket.perform, Docket.perform]
      split
      · exact h.charge _
      · exact h
  | openMethod hname => cases k <;> [exact h.opens hname; exact h]
  | openClass hname => cases k <;> [exact h; exact h.opens hname]
  | closeMethod => cases k <;> [exact h.closes; exact h]
  | closeClass => cases k <;> [exact h; exact h.closes]

theorem foldl (hab : List.Forall₂ (Act.Alike R) as bs) (h : d.Alike (R k) e) :
    (as.foldl (Docket.perform k) d).Alike (R k) (bs.foldl (Docket.perform k) e) := by
  induction hab generalizing d e with
  | nil => exact h
  | cons hab _ ih => exact ih (h.perform hab)

/-- If the names are renamed one to one, so are the keys of the closed scopes by name. -/
theorem byName_perm {g : String → String} {names : List String}
    (h : d.Alike (fun a b => a ∈ names ∧ b = g a) e)
    (hg : ∀ a ∈ names, ∀ b ∈ names, g a = g b → a = b) :
    e.byName.entries.Perm (d.byName.entries.map fun e => (g e.1, e.2)) := by
  have hscopes : e.closed.map (fun s => (s.name, s.score)) =
      (d.closed.map fun s => (s.name, s.score)).map fun e => (g e.1, e.2) := by
    rw [List.map_map]
    exact (map_eq_of_forall₂ h.closed fun _ _ _ hs => Prod.ext hs.1.2.symm hs.2).symm
  have hnames : ∀ e ∈ d.closed.map fun s => (s.name, s.score), e.1 ∈ names := by
    intro e he
    obtain ⟨s, hs, rfl⟩ := List.mem_map.mp he
    have hboth := (List.forall₂_and_left _ _).mp (h.closed.imp fun _ _ hs => ⟨hs.1.1, hs⟩)
    exact hboth.1 s hs
  unfold Docket.byName
  rw [hscopes]
  exact SortedMap.ofList_rename_perm fun a ha b hb => hg _ (hnames a ha) _ (hnames b hb)

end Docket.Alike

end

/-- Trees that differ in their texts only are walked alike. -/
theorem alike_acts_root {R : ScopeKind → String → String → Prop} {t u : Node}
    (h : Respelled R t u) :
    List.Forall₂ (Act.Alike R) (acts [.visit t] .initial) (acts [.visit u] .initial) :=
  alike_acts (.cons (.visit h) .nil) ⟨rfl, rfl, rfl⟩

theorem stored_perm {k : ScopeKind} {g : String → String} {t u : Node}
    (h : unspelled t = unspelled u)
    (hg : ∀ a ∈ definitionNames k t, ∀ b ∈ definitionNames k t, g a = g b → a = b)
    (hnames : definitionNames k u = (definitionNames k t).map g) :
    (k.stored (breakdown u)).entries.Perm
      ((k.stored (breakdown t)).entries.map fun e => (g e.1, e.2)) := by
  -- Only the names of the one kind are known to be renamed.
  have hrespelled : Respelled (fun k' a b => k' = k → a ∈ definitionNames k t ∧ b = g a) t u := by
    refine respelled_of_names h fun k' => ?_
    by_cases hk : k' = k
    · subst hk
      rw [hnames, List.forall₂_map_right_iff, List.forall₂_same]
      exact fun a ha _ => ⟨ha, rfl⟩
    · exact List.forall₂_iff_zip.mpr ⟨length_definitionNames k' h, fun _ hk' => absurd hk' hk⟩
  have hdocket := Docket.Alike.foldl (k := k) (alike_acts_root hrespelled)
    (⟨.nil, .nil⟩ : Docket.Alike _ ⟨[], []⟩ ⟨[], []⟩)
  have hplain : Docket.Alike (fun a b => a ∈ definitionNames k t ∧ b = g a) _ _ :=
    ⟨hdocket.pending.imp fun _ _ hs => ⟨hs.1 rfl, hs.2⟩,
      hdocket.closed.imp fun _ _ hs => ⟨hs.1 rfl, hs.2⟩⟩
  have hstored : ∀ v : Node, k.stored (breakdown v) =
      ((acts [.visit v] .initial).foldl (Docket.perform k) ⟨[], []⟩).byName := by
    intro v
    rw [breakdown_result, ((records_initial k).run _).byName]
  rw [hstored, hstored]
  exact hplain.byName_perm hg

/-- **Scores do not depend on spelling.**  Trees that differ in their texts only have the same
totals, the same line scores and the same statistics.  If the names of their functions, or of their
classes, differ by a renaming that is one to one, the methods, or the classes, have the renamed
names and the same scores. -/
theorem breakdown_respelled {t u : Node} (h : unspelled t = unspelled u) :
    (breakdown t).dc = (breakdown u).dc ∧ (breakdown t).cc = (breakdown u).cc ∧
    (breakdown t).lineScores = (breakdown u).lineScores ∧
    (breakdown t).structures = (breakdown u).structures ∧
    ∀ g : String → String,
      ((∀ a ∈ definitionNames .methods t, ∀ b ∈ definitionNames .methods t, g a = g b → a = b) →
        definitionNames .methods u = (definitionNames .methods t).map g →
        (breakdown u).methods.entries.Perm
          ((breakdown t).methods.entries.map fun e => (g e.1, e.2))) ∧
      ((∀ a ∈ definitionNames .classes t, ∀ b ∈ definitionNames .classes t, g a = g b → a = b) →
        definitionNames .classes u = (definitionNames .classes t).map g →
        (breakdown u).classes.entries.Perm
          ((breakdown t).classes.entries.map fun e => (g e.1, e.2))) := by
  have hrespelled : Respelled (fun _ _ _ => True) t u := respelled_of_names h fun k =>
    List.forall₂_iff_zip.mpr ⟨length_definitionNames k h, fun _ => trivial⟩
  have hacts := alike_acts_root hrespelled
  have hpart := scoredPart_eq hacts (Walker.ledger .initial)
  have hcc := cc_eq hacts (Walker.ledger .initial)
  rw [← breakdown_result, ← breakdown_result] at hpart hcc
  obtain ⟨hdc, hrest⟩ := Prod.mk.inj hpart
  obtain ⟨hlines, hstructures⟩ := Prod.mk.inj hrest
  exact ⟨hdc, hcc, hlines, hstructures,
    fun g => ⟨stored_perm (k := .methods) h, stored_perm (k := .classes) h⟩⟩

/-- A class with a method that asks for a name. -/
def spelledClass (className methodName asked : String) : Node :=
  .node .classDefinition none 0 "" [
    leaf .mark 0 "class", .node .identifier (some .name) 0 className [],
    .node .phrase (some .body) 1 "" [
      .node .functionDefinition none 1 "" [
        leaf .mark 1 "def", .node .identifier (some .name) 1 methodName [],
        .node .phrase (some .body) 2 "" [
          .node .ifStatement none 2 "" [
            leaf .mark 2 "if", .node .identifier (some .condition) 2 asked [],
            .node .phrase (some .consequence) 3 "" []]]]]]

/-- The class in two spellings, and what became of its names. -/
theorem breakdown_respelled_class :
    let t := spelledClass "C" "f" "ready"
    let u := spelledClass "Door" "open" "locked"
    let g (name : String) := if name = "C" then "Door" else if name = "f" then "open" else name
    unspelled t = unspelled u ∧
    (breakdown t).dc = 4 ∧ (breakdown u).dc = 4 ∧
    (breakdown t).cc = (breakdown u).cc ∧ (breakdown t).lineScores = (breakdown u).lineScores ∧
    (breakdown u).methods.entries.Perm ((breakdown t).methods.entries.map fun e => (g e.1, e.2)) ∧
    (breakdown u).classes.entries.Perm
      ((breakdown t).classes.entries.map fun e => (g e.1, e.2)) := by
  intro t u g
  have hunspelled : unspelled t = unspelled u := rfl
  obtain ⟨hdc, hcc, hlines, -, hnames⟩ := breakdown_respelled hunspelled
  have hfour : (breakdown t).dc = 4 := by
    rw [dc_breakdown (by decide)]
    decide +kernel
  exact ⟨hunspelled, hfour, hdc ▸ hfour, hcc, hlines, (hnames g).1 (by decide) (by decide),
    (hnames g).2 (by decide) (by decide)⟩

end DecisionScore.Python.Walk
