import DecisionScore.Proofs.Python.Nesting
import DecisionScore.Proofs.Python.WorkList

/-! # The weight of a condition, part by part

A work list ends with the sum over its nodes, and so the pending nodes may be counted in any order
(`Counts.completes`).

`IsCondition` says what conditions are built from.  There the operands are one more than the
operators (`IsCondition.operands_eq`), and what stands around a single part adds nothing to it
(`tokens_of_phrase`, `tokens_of_attribute`). -/

namespace DecisionScore.Python.Condition

/-! ### Any order will do -/

/-- `Counts n ps w qs v`: `n` nodes are counted, each of them any of those pending at the time, and
the pending nodes `ps` and the weight `w` become `qs` and `v`. -/
inductive Counts : Nat → List Pending → TokenWeight → List Pending → TokenWeight → Prop
  | none (ps : List Pending) (w : TokenWeight) : Counts 0 ps w ps w
  | next {n : Nat} {p : Pending} {ps rest qs : List Pending} {w v : TokenWeight}
    (pick : ps.Perm (p :: rest)) (more : Counts n (opened p ++ rest) (own p w) qs v) :
    Counts (n + 1) ps w qs v

theorem pendingSize_perm {ps qs : List Pending} (h : ps.Perm qs) :
    pendingSize ps = pendingSize qs := by
  induction h with
  | nil => rfl
  | cons p _ ih => simpa [pendingSize] using ih
  | swap p q ps => simp only [pendingSize, List.map_cons, Tree.sizes_cons]; omega
  | trans _ _ ih ih' => exact ih.trans ih'

namespace Counts

variable {n : Nat} {ps qs : List Pending} {w v : TokenWeight}

/-- What has been counted and what is due add up to the same all along. -/
theorem add_due (h : Counts n ps w qs v) : v + due qs = w + due ps := by
  induction h with
  | none => rfl
  | next pick _ ih => rw [ih, own_add_due, due_perm pick]

/-- Each node counted leaves fewer nodes below the pending ones. -/
theorem add_size_le (h : Counts n ps w qs v) : n + pendingSize qs ≤ pendingSize ps := by
  induction h with
  | none => omega
  | @next n p ps rest _ _ _ pick _ ih =>
      have := pendingSize_opened p rest
      have := pendingSize_perm pick
      omega

/-- Taking the first pending node each time is one of the orders. -/
theorem weigh (ps : List Pending) (w : TokenWeight) :
    ∃ n, Counts n ps w [] (Condition.weigh ps w) := by
  induction ps, w using weighInduction with
  | nil w =>
      rw [Condition.weigh]
      exact ⟨0, .none [] w⟩
  | cons p ps w ih =>
      obtain ⟨n, h⟩ := ih
      rw [weigh_cons]
      exact ⟨n + 1, .next (.refl _) h⟩

/-- However far the count of a condition has come, and in whatever order, it goes on to the same
weight, and a count that is over has it. -/
theorem completes {t : Node} (h : Counts n [⟨false, t⟩] .bare qs v) :
    (∃ m, n + m ≤ t.size ∧ Counts m qs v [] (weight t)) ∧ (qs = [] → v = weight t) := by
  have hweight : Condition.weigh qs v = weight t := by
    rw [weigh_eq_add, h.add_due, weight, weigh_eq_add]
  obtain ⟨m, hm⟩ := weigh qs v
  rw [hweight] at hm
  refine ⟨⟨m, ?_, hm⟩, fun hq => ?_⟩
  · have hn := h.add_size_le
    have hm := hm.add_size_le
    simp only [pendingSize, List.map_cons, List.map_nil, Tree.sizes_cons, Tree.sizes_nil] at hn hm
    omega
  · rw [← hweight, hq, Condition.weigh]

end Counts

/-! ### Parts -/

mutual

/-- Whether a node is a mark, a comment or a line continuation, with nothing else below it. -/
def isSilent : Node → Bool
  | .node k _ _ _ cs => (k == .mark || k.isExtra) && areSilent cs

/-- Whether all nodes are marks, comments and line continuations. -/
def areSilent : List Node → Bool
  | [] => true
  | c :: cs => isSilent c && areSilent cs

end

/-- The children of a node that are more than marks, comments and line continuations. -/
def parts (t : Node) : List Node := t.children.filter (! isSilent ·)

theorem areSilent_iff {cs : List Node} : areSilent cs = true ↔ ∀ c ∈ cs, isSilent c = true := by
  induction cs with
  | nil => simp [areSilent]
  | cons c cs ih => simp [areSilent, ih]

theorem isSilent_iff {t : Node} : isSilent t = true ↔
    (t.kind = .mark ∨ t.kind.isExtra = true) ∧ ∀ c ∈ t.children, isSilent c = true := by
  cases t with
  | node k r row text cs =>
      rw [isSilent, Bool.and_eq_true, Bool.or_eq_true, beq_iff_eq, areSilent_iff]
      rfl

theorem tokens_silent {t : Node} (h : isSilent t = true) (isLabel : Bool) :
    tokens isLabel t = 0 := by
  induction t using Tree.childInduction generalizing isLabel with
  | node t ih =>
      obtain ⟨hkind, hbelow⟩ := isSilent_iff.mp h
      have hshare : share isLabel t = 0 := by
        unfold share
        revert hkind
        cases t.kind <;> simp [Kind.isExtra]
      have hsum : tokensBelow (labelRole? t.kind) t.children = 0 := by
        rw [tokensBelow_eq_due]
        refine List.sum_eq_zero fun x hx => ?_
        obtain ⟨p, hp, rfl⟩ := List.mem_map.mp hx
        have hc : p.node ∈ t.children := by
          rw [← map_node_labelled (labelRole? t.kind) t.children]
          exact List.mem_map_of_mem hp
        exact ih p.node hc (hbelow p.node hc) _
      rw [tokens_eq, hshare, hsum, ite_self, add_zero]

/-- Only what is no mark, comment or line continuation adds something. -/
theorem sum_filter_silent (cs : List Node) :
    ((cs.filter (! isSilent ·)).map (tokens false)).sum = (cs.map (tokens false)).sum := by
  induction cs with
  | nil => rfl
  | cons c cs ih =>
      cases hc : isSilent c with
      | true => simp [hc, ih, tokens_silent hc]
      | false => simp [hc, ih]

theorem tokensBelow_none (cs : List Node) :
    tokensBelow none cs = (cs.map (tokens false)).sum := by
  induction cs with
  | nil => rw [tokensBelow, List.map_nil, List.sum_nil]
  | cons c cs ih => rw [tokensBelow, if_neg (by simp), ih, List.map_cons, List.sum_cons]

/-- The label is told apart from what stands before it and behind it. -/
theorem tokensBelow_append {label : Role} {before : List Node} {name : Node}
    (hbefore : ∀ c ∈ before, c.role ≠ some label) (hname : name.role = some label)
    (after : List Node) : tokensBelow (some label) (before ++ name :: after) =
      (before.map (tokens false)).sum + (tokens true name + (after.map (tokens false)).sum) := by
  induction before with
  | nil =>
      rw [List.nil_append, tokensBelow, if_pos ⟨rfl, hname⟩, tokensBelow_none, List.map_nil,
        List.sum_nil, zero_add]
  | cons c before ih =>
      obtain ⟨hc, hbefore⟩ := List.forall_mem_cons.mp hbefore
      rw [List.cons_append, tokensBelow, if_neg fun h => hc h.2, ih hbefore, List.map_cons,
        List.sum_cons, add_assoc]

/-- Where no child is a label, the parts count in full. -/
theorem tokens_eq_sum {t : Node} (hopen : isOpen t.kind = true) (hlabel : labelRole? t.kind = none)
    (isLabel : Bool) :
    tokens isLabel t = share isLabel t + ((parts t).map (tokens false)).sum := by
  rw [tokens_eq, if_pos hopen, hlabel, tokensBelow_none, parts, sum_filter_silent]

/-- A phrase around a single part, such as parentheses, `not` or a sign, weighs what the part
weighs. -/
theorem tokens_of_phrase {t c : Node} (hkind : t.kind = .phrase) (hparts : parts t = [c])
    (isLabel : Bool) : tokens isLabel t = tokens false c := by
  have hshare : share isLabel t = 0 := by rw [share, hkind]
  rw [tokens_eq_sum (by rw [hkind]; rfl) (by rw [hkind]; rfl), hshare, hparts, List.map_singleton,
    List.sum_singleton, zero_add]

/-- Whether a node is the name after the dot in an access to an attribute. -/
def IsAttributeName (t name : Node) : Prop :=
  name.kind = .identifier ∧ t.child? .attribute = some name ∧ parts name = []

/-- An access to an attribute weighs what the object weighs. -/
theorem tokens_of_attribute {t c name : Node} (hkind : t.kind = .attribute)
    (hparts : parts t = [c, name]) (hrole : c.role ≠ some .attribute)
    (hname : IsAttributeName t name) (isLabel : Bool) : tokens isLabel t = tokens false c := by
  obtain ⟨hidentifier, hlabel, hleaf⟩ := hname
  have hshare : share isLabel t = 0 := by rw [share, hkind]
  have hzero : tokens true name = 0 := by
    rw [tokens_eq_sum (by rw [hidentifier]; rfl) (by rw [hidentifier]; rfl), hleaf, share,
      hidentifier]
    rfl
  have hloud : isSilent name = false := by
    cases hsilent : isSilent name with
    | false => rfl
    | true =>
        have hmark := (isSilent_iff.mp hsilent).1
        simp [hidentifier, Kind.isExtra] at hmark
  obtain ⟨hattribute, before, after, hchildren, hbefore⟩ :=
    List.find?_eq_some_iff_append.mp hlabel
  have hnone : ∀ d ∈ before, d.role ≠ some .attribute := fun d hd => by simpa using hbefore d hd
  -- the object is all that is left before the name, and nothing is left behind it
  have hleft : before.filter (! isSilent ·) ++ name :: after.filter (! isSilent ·) = [c, name] := by
    rw [← hparts, parts, hchildren]
    simp [hloud]
  have hsplit : before.filter (! isSilent ·) = [c] ∧ after.filter (! isSilent ·) = [] := by
    cases hobject : before.filter (! isSilent ·) with
    | nil =>
        rw [hobject] at hleft
        obtain rfl : name = c := (List.cons.inj hleft).1
        exact absurd (by simpa using hattribute) hrole
    | cons d ds =>
        rw [hobject, List.cons_append] at hleft
        obtain ⟨rfl, hrest⟩ := List.cons.inj hleft
        cases ds with
        | nil => exact ⟨rfl, (List.cons.inj hrest).2⟩
        | cons e es => simpa using congrArg List.length hrest
  have hbelow : tokensBelow (some .attribute) t.children = tokens false c := by
    rw [hchildren, tokensBelow_append hnone (by simpa using hattribute),
      ← sum_filter_silent before, ← sum_filter_silent after, hsplit.1, hsplit.2, hzero]
    simp
  have hopen : isOpen t.kind = true := by rw [hkind]; rfl
  rw [tokens_eq, hshare, if_pos hopen, hkind, zero_add]
  exact hbelow

/-! ### Clauses -/

/-- Whether a site is a boolean operator with no string around it. -/
def isConnective (q : Site) : Bool :=
  q.node.kind == .booleanOperator && q.above.all (isOpen ·.node.kind)

/-- The number of boolean operators in a condition that are not in a string. -/
def connectives (t : Node) : Nat := (sitesFrom [] t).countP isConnective

theorem countP_sitesBelow {n : Node} {above : List Ancestor} {cs : List Node}
    (h : ∀ c ∈ cs, ∀ above : List Ancestor, (sitesFrom above c).countP isConnective =
      if above.all (isOpen ·.node.kind) then connectives c else 0) (i : Nat) :
    (sitesBelow n above i cs).countP isConnective =
      if isOpen n.kind && above.all (isOpen ·.node.kind) then (cs.map connectives).sum else 0 := by
  induction cs generalizing i with
  | nil => simp
  | cons c cs ih =>
      rw [sitesBelow_cons, List.countP_append, h c List.mem_cons_self,
        ih (fun d hd => h d (List.mem_cons_of_mem c hd)), List.all_cons, List.map_cons,
        List.sum_cons]
      split <;> rfl

theorem countP_sitesFrom (above : List Ancestor) (t : Node) :
    (sitesFrom above t).countP isConnective =
      if above.all (isOpen ·.node.kind) then connectives t else 0 := by
  induction t using Tree.childInduction generalizing above with
  | node t ih =>
      rw [connectives, sitesFrom_eq, sitesFrom_eq, List.countP_cons, List.countP_cons,
        countP_sitesBelow ih, countP_sitesBelow ih, isConnective, isConnective]
      cases above.all (isOpen ·.node.kind) <;> simp

theorem connectives_eq (t : Node) : connectives t =
    (if t.kind = .booleanOperator then 1 else 0) +
      if isOpen t.kind then (t.children.map connectives).sum else 0 := by
  rw [connectives, sitesFrom_eq, List.countP_cons, isConnective,
    countP_sitesBelow fun c _ above => countP_sitesFrom above c, Nat.add_comm]
  simp

theorem conds_share (isLabel : Bool) (t : Node) :
    (share isLabel t).conds = if t.kind = .booleanOperator then 1 else 0 := by
  unfold share
  cases t.kind
  case identifier => cases isLabel <;> rfl
  all_goals rfl

theorem conds_tokensBelow (label : Option Role) {cs : List Node}
    (h : ∀ c ∈ cs, ∀ isLabel, (tokens isLabel c).conds = connectives c) :
    (tokensBelow label cs).conds = (cs.map connectives).sum := by
  induction cs generalizing label with
  | nil => rw [tokensBelow]; rfl
  | cons c cs ih =>
      obtain ⟨hc, hcs⟩ := List.forall_mem_cons.mp h
      rw [tokensBelow, List.map_cons, List.sum_cons]
      split <;> rw [TokenWeight.conds_add, hc, ih _ hcs]

/-- Each boolean operator outside strings is a clause more. -/
theorem conds_tokens (isLabel : Bool) (t : Node) : (tokens isLabel t).conds = connectives t := by
  induction t using Tree.childInduction generalizing isLabel with
  | node t ih =>
      have hbelow := conds_tokensBelow (labelRole? t.kind) ih
      rw [tokens_eq, connectives_eq, TokenWeight.conds_add, conds_share]
      cases isOpen t.kind with
      | true => rw [if_pos rfl, if_pos rfl, hbelow]
      | false => rfl

/-! ### What conditions are built from -/

/-- Whether nodes of the kind are single operands: names, literals and strings. -/
def isOperand (k : Kind) : Bool :=
  k ∈ [Kind.identifier, .integer, .float, .trueLiteral, .falseLiteral, .noneLiteral, .ellipsis,
    .string, .concatenatedString]

/-- Conditions made of names, literals and strings by parentheses, `not`, signs, access to
attributes, binary and boolean operators and chains of comparisons.  Comments and line
continuations may stand anywhere but between the terms of a comparison. -/
inductive IsCondition : Node → Prop
  | operand {t : Node} (kind : isOperand t.kind = true)
    (leaf : isOpen t.kind = true → parts t = []) : IsCondition t
  | around {t c : Node} (kind : t.kind = .phrase) (single : parts t = [c])
    (part : IsCondition c) : IsCondition t
  | access {t c name : Node} (kind : t.kind = .attribute) (pair : parts t = [c, name])
    (role : c.role ≠ some .attribute) (label : IsAttributeName t name)
    (object : IsCondition c) : IsCondition t
  | operator {t l r : Node} (kind : t.kind = .binaryOperator ∨ t.kind = .booleanOperator)
    (pair : parts t = [l, r]) (left : IsCondition l) (right : IsCondition r) : IsCondition t
  | comparison {t : Node} (kind : t.kind = .comparisonOperator) (some : parts t ≠ [])
    (plain : ∀ c ∈ t.children, c.kind.isExtra = false)
    (terms : ∀ c ∈ parts t, IsCondition c) : IsCondition t

theorem isNamed_of_isOperand {k : Kind} (h : isOperand k = true) : k.isNamed = true := by
  revert h
  cases k <;> decide

theorem share_of_isOperand {t : Node} (h : isOperand t.kind = true) :
    share false t = ⟨0, 0, 1⟩ := by
  unfold share
  revert h
  cases t.kind <;> first | exact fun _ => rfl | exact fun h => absurd h (by decide)

/-- The root of a condition is a named node. -/
theorem IsCondition.isNamed {t : Node} (h : IsCondition t) : t.kind.isNamed = true := by
  cases h with
  | operand kind => exact isNamed_of_isOperand kind
  | operator kind => rcases kind with kind | kind <;> rw [kind] <;> rfl
  | around kind => rw [kind]; rfl
  | access kind => rw [kind]; rfl
  | comparison kind => rw [kind]; rfl

/-- The named children of a comparison are its terms. -/
theorem namedCount_eq {t : Node} (plain : ∀ c ∈ t.children, c.kind.isExtra = false)
    (terms : ∀ c ∈ parts t, IsCondition c) : namedCount t = (parts t).length := by
  rw [namedCount, parts, ← List.countP_eq_length_filter]
  refine List.countP_congr fun c hc => ?_
  cases hsilent : isSilent c with
  | true =>
      have hmark : c.kind = .mark :=
        (isSilent_iff.mp hsilent).1.resolve_right (by simp [plain c hc])
      simp [hmark, Kind.isNamed]
  | false =>
      have hpart : c ∈ parts t := List.mem_filter.mpr ⟨hc, by simp [hsilent]⟩
      simp [(terms c hpart).isNamed]

theorem operands_sum {cs : List Node}
    (h : ∀ c ∈ cs, (tokens false c).operands = (tokens false c).ops + 1) :
    (cs.map (tokens false)).sum.operands = (cs.map (tokens false)).sum.ops + cs.length := by
  induction cs with
  | nil => rfl
  | cons c cs ih =>
      have hc := h c List.mem_cons_self
      have hcs := ih fun d hd => h d (List.mem_cons_of_mem c hd)
      simp only [List.map_cons, List.sum_cons, TokenWeight.operands_add, TokenWeight.ops_add,
        List.length_cons]
      omega

/-- A condition has one operand more than it has operators. -/
theorem IsCondition.operands_eq {t : Node} (h : IsCondition t) :
    (tokens false t).operands = (tokens false t).ops + 1 := by
  induction h with
  | @operand t kind leaf =>
      have hbelow : tokens false t = share false t := by
        cases hopen : isOpen t.kind with
        | true =>
            have hlabel : labelRole? t.kind = none := by
              revert kind
              cases t.kind <;> first | exact fun _ => rfl | exact fun h => absurd h (by decide)
            rw [tokens_eq_sum hopen hlabel, leaf hopen, List.map_nil, List.sum_nil, add_zero]
        | false => rw [tokens_eq, hopen, if_neg Bool.false_ne_true, add_zero]
      rw [hbelow, share_of_isOperand kind]
  | around kind single _ ih => rwa [tokens_of_phrase kind single]
  | access kind pair role label _ ih => rwa [tokens_of_attribute kind pair role label]
  | @operator t l r kind pair _ _ ihl ihr =>
      have hopen : isOpen t.kind = true := by rcases kind with kind | kind <;> rw [kind] <;> rfl
      have hlabel : labelRole? t.kind = none := by
        rcases kind with kind | kind <;> rw [kind] <;> rfl
      have hshare : (share false t).ops = 1 ∧ (share false t).operands = 0 := by
        unfold share
        rcases kind with kind | kind <;> rw [kind] <;> exact ⟨rfl, rfl⟩
      rw [tokens_eq_sum hopen hlabel, pair]
      simp only [List.map_cons, List.map_nil, List.sum_cons, List.sum_nil, add_zero,
        TokenWeight.operands_add, TokenWeight.ops_add, hshare, ihl, ihr]
      omega
  | @comparison t kind some plain terms ih =>
      have hshare : share false t = ⟨0, (parts t).length - 1, 0⟩ := by
        unfold share
        rw [kind, namedCount_eq plain terms]
      have hsum := operands_sum ih
      have hlength := List.length_pos_iff.mpr some
      rw [tokens_eq_sum (by rw [kind]; rfl) (by rw [kind]; rfl), hshare]
      simp only [TokenWeight.operands_add, TokenWeight.ops_add]
      omega

/-- **The weight of a condition is composed of its parts.**  On every tree it is the sum that
`tokens` takes from the root down, and a work list that takes any pending node next ends with it
after at most as many turns as there are nodes.  A condition has one operand more than operators,
and one clause more than it has boolean operators outside its strings.  Parentheses, `not`, signs
and access to an attribute weigh nothing. -/
theorem weight_composed :
    (∀ t : Node, weight t = .bare + tokens false t) ∧
    (∀ (t : Node) (n : Nat) (qs : List Pending) (v : TokenWeight),
      Counts n [⟨false, t⟩] .bare qs v →
        (∃ m, n + m ≤ t.size ∧ Counts m qs v [] (weight t)) ∧ (qs = [] → v = weight t)) ∧
    (∀ t : Node, IsCondition t →
      (weight t).operands = (weight t).ops + 1 ∧
      (weight t).conds = 1 + connectives t ∧
      (weight t).total = 2 * (weight t).operands + connectives t) ∧
    (∀ t c : Node, t.kind = .phrase → parts t = [c] → weight t = weight c) ∧
    ∀ t c name : Node, t.kind = .attribute → parts t = [c, name] → c.role ≠ some .attribute →
      IsAttributeName t name → weight t = weight c := by
  refine ⟨weight_eq_tokens, fun _ _ _ _ h => h.completes, fun t ht => ?_,
    fun t c hkind hparts => ?_, fun t c name hkind hparts hrole hname => ?_⟩
  · have hoperands : (weight t).operands = (weight t).ops + 1 := by
      simp only [weight_eq_tokens, TokenWeight.operands_add, TokenWeight.ops_add, ht.operands_eq,
        TokenWeight.bare]
      omega
    have hconds : (weight t).conds = 1 + connectives t := by
      rw [weight_eq_tokens, TokenWeight.conds_add, conds_tokens]
      rfl
    refine ⟨hoperands, hconds, ?_⟩
    unfold TokenWeight.total
    omega
  · rw [weight_eq_tokens, weight_eq_tokens, tokens_of_phrase hkind hparts]
  · rw [weight_eq_tokens, weight_eq_tokens, tokens_of_attribute hkind hparts hrole hname]

/-- The condition `(not a.b <= -c) or d + 1`, with a comment behind `or`. -/
def composite : Node :=
  .node .booleanOperator none 0 "" [
    .node .phrase (some .left) 0 "" [
      leaf .mark 0 "(",
      .node .phrase none 0 "" [
        leaf .mark 0 "not",
        .node .comparisonOperator (some .argument) 0 "" [
          .node .attribute none 0 "" [
            .node .identifier (some .object) 0 "a" [], leaf .mark 0 ".",
            .node .identifier (some .attribute) 0 "b" []],
          .node .mark (some .operators) 0 "<=" [],
          .node .phrase none 0 "" [
            .node .mark (some .operator) 0 "-" [], .node .identifier (some .argument) 0 "c" []]]],
      leaf .mark 0 ")"],
    .node .mark (some .operator) 0 "or" [],
    leaf .comment 0 "# otherwise",
    .node .binaryOperator (some .right) 1 "" [
      .node .identifier (some .left) 1 "d" [], .node .mark (some .operator) 1 "+" [],
      .node .integer (some .right) 1 "1" []]]

theorem isCondition_leaf {t : Node} (h : isOperand t.kind = true) (hleaf : t.children = []) :
    IsCondition t :=
  .operand h fun _ => by rw [parts, hleaf]; rfl

theorem isCondition_composite : IsCondition composite := by
  refine .operator (.inr rfl) rfl (.around rfl rfl (.around rfl rfl ?_))
    (.operator (.inl rfl) rfl (isCondition_leaf rfl rfl) (isCondition_leaf rfl rfl))
  refine .comparison rfl (by decide) (by decide) fun c hc => ?_
  rcases List.mem_cons.mp hc with rfl | hc
  · exact .access rfl rfl (by decide) ⟨rfl, rfl, rfl⟩ (isCondition_leaf rfl rfl)
  · obtain rfl := List.mem_singleton.mp hc
    exact .around rfl rfl (isCondition_leaf rfl rfl)

/-- Four operands with three operators between them, and two clauses. -/
theorem weight_composed_composite : IsCondition composite ∧ connectives composite = 1 ∧
    (weight composite).operands = (weight composite).ops + 1 ∧
    (weight composite).conds = 2 ∧
    (weight composite).total = 9 := by
  obtain ⟨htokens, -, hcondition, -, -⟩ := weight_composed
  obtain ⟨hoperands, hconds, htotal⟩ := hcondition composite isCondition_composite
  have hconnectives : connectives composite = 1 := by decide +kernel
  have hfour : (weight composite).operands = 4 := by
    rw [htokens]
    decide +kernel
  rw [hconnectives] at hconds htotal
  exact ⟨isCondition_composite, hconnectives, hoperands, hconds, by rw [htotal, hfour]⟩

/-- The condition `f"{a and b}"`. -/
def formatted : Node :=
  .node .string none 0 "" [
    leaf .phrase 0 "f\"",
    .node .phrase none 0 "" [
      leaf .mark 0 "\x7b",
      .node .booleanOperator (some .expression) 0 "" [
        .node .identifier (some .left) 0 "a" [], .node .mark (some .operator) 0 "and" [],
        .node .identifier (some .right) 0 "b" []],
      leaf .mark 0 "\x7d"],
    leaf .phrase 0 "\""]

/-- The condition `a < b` with a line continuation before `b`. -/
def continued : Node :=
  .node .comparisonOperator none 0 "" [
    leaf .identifier 0 "a", .node .mark (some .operators) 0 "<" [],
    leaf .lineContinuation 0 "\\\n", leaf .identifier 1 "b"]

/-- A boolean operator in a string is no clause of the condition, and a line continuation in a
comparison counts as one more operator. -/
theorem texts_and_breaks_weighed :
    (IsCondition formatted ∧ (nodesFrom formatted).all (! ·.kind.isExtra) = true ∧
      (nodesFrom formatted).countP (·.kind == .booleanOperator) = 1 ∧
      (weight formatted).conds = 1) ∧
    ((nodesFrom continued).all (·.kind != .comment) = true ∧
      (∀ c ∈ parts continued, IsCondition c) ∧
      (weight continued).operands = 2 ∧ (weight continued).ops = 2) := by
  refine ⟨⟨.operand rfl fun h => absurd h (by decide), by decide +kernel, by decide +kernel, ?_⟩,
    by decide +kernel, ?_, ?_, ?_⟩
  · rw [weight_eq_tokens]
    decide +kernel
  · intro c hc
    rcases List.mem_cons.mp hc with rfl | hc
    · exact isCondition_leaf rfl rfl
    · obtain rfl := List.mem_singleton.mp hc
      exact isCondition_leaf rfl rfl
  · rw [weight_eq_tokens]
    decide +kernel
  · rw [weight_eq_tokens]
    decide +kernel

end DecisionScore.Python.Condition
