import DecisionScore.Proofs.Python.Tidy

/-! # Trees without comments and line continuations

`withoutExtras` takes the comments and line continuations out of a tree and leaves everything else:
the other nodes, their roles and their rows.  The walk looks at the children of a node in four ways.
By kind and by role it passes over the extra nodes, since in a `Tidy` tree they play no role and
have nothing below them.  By number it finds the same child under its new number (`remaining`), as
long as no extra node is counted along with the named ones; and where it takes the number of named
children, in a comparison, it gets the same number, as long as none of them is extra.

These two provisos are what `Settled` asks for.  In a settled tree the traversal does the same to
every node with and without extra nodes (`Unaffected`), and so does the walk.  Both provisos are
needed: a comment inside a comparison adds to the weight of the condition, and a comment before the
condition of a conditional expression is weighed in its place. -/

namespace DecisionScore.Python

open Walk

/-! ### Deleting what may stand anywhere -/

mutual

/-- The tree without the comments and line continuations below its root. -/
def withoutExtras : Node → Node
  | .node k r row text cs => .node k r row text (dropExtras cs)

/-- The trees without comments and line continuations, among them and below them. -/
def dropExtras : List Node → List Node
  | [] => []
  | c :: cs => if c.kind.isExtra then dropExtras cs else withoutExtras c :: dropExtras cs

end

@[simp] theorem kind_withoutExtras (n : Node) : (withoutExtras n).kind = n.kind := by
  cases n
  rfl

@[simp] theorem role_withoutExtras (n : Node) : (withoutExtras n).role = n.role := by
  cases n
  rfl

@[simp] theorem row_withoutExtras (n : Node) : (withoutExtras n).row = n.row := by
  cases n
  rfl

@[simp] theorem text_withoutExtras (n : Node) : (withoutExtras n).text = n.text := by
  cases n
  rfl

@[simp] theorem children_withoutExtras (n : Node) :
    (withoutExtras n).children = dropExtras n.children := by
  cases n
  rfl

theorem dropExtras_cons_extra {c : Node} (h : c.kind.isExtra = true) (cs : List Node) :
    dropExtras (c :: cs) = dropExtras cs := by
  rw [dropExtras, if_pos h]

theorem dropExtras_cons {c : Node} (h : c.kind.isExtra = false) (cs : List Node) :
    dropExtras (c :: cs) = withoutExtras c :: dropExtras cs := by
  rw [dropExtras, h]
  rfl

theorem dropExtras_eq (cs : List Node) :
    dropExtras cs = (cs.filter fun c => !c.kind.isExtra).map withoutExtras := by
  induction cs with
  | nil => rfl
  | cons c cs ih =>
      cases hc : c.kind.isExtra with
      | true => rw [dropExtras_cons_extra hc, ih, List.filter_cons_of_neg (by simp [hc])]
      | false =>
          rw [dropExtras_cons hc, ih, List.filter_cons_of_pos (by simp [hc]), List.map_cons]

/-! ### Where the other children are afterwards -/

/-- The number that a node has after the extra nodes before it are gone. -/
def remaining (cs : List Node) (i : Nat) : Nat := (cs.take i).countP fun c => !c.kind.isExtra

@[simp] theorem remaining_zero (cs : List Node) : remaining cs 0 = 0 := rfl

theorem remaining_cons_extra {c : Node} (h : c.kind.isExtra = true) (cs : List Node) (i : Nat) :
    remaining (c :: cs) (i + 1) = remaining cs i := by
  simp [remaining, h]

theorem remaining_cons {c : Node} (h : c.kind.isExtra = false) (cs : List Node) (i : Nat) :
    remaining (c :: cs) (i + 1) = remaining cs i + 1 := by
  simp [remaining, h]

theorem getElem?_dropExtras {cs : List Node} {i : Nat}
    (h : ∀ c ∈ cs[i]?, c.kind.isExtra = false) :
    (dropExtras cs)[remaining cs i]? = cs[i]?.map withoutExtras := by
  induction cs generalizing i with
  | nil => rfl
  | cons c cs ih =>
      cases i with
      | zero =>
          rw [dropExtras_cons (h c rfl)]
          rfl
      | succ i =>
          cases hc : c.kind.isExtra with
          | true =>
              rw [dropExtras_cons_extra hc, remaining_cons_extra hc]
              exact ih h
          | false =>
              rw [dropExtras_cons hc, remaining_cons hc]
              exact ih h

/-- A child that is neither a comment nor a line continuation is found under its new number. -/
theorem bind_dropExtras {cs : List Node} {i : Option Nat}
    (h : ∀ c ∈ i.bind (cs[·]?), c.kind.isExtra = false) :
    (i.map (remaining cs)).bind ((dropExtras cs)[·]?) = (i.bind (cs[·]?)).map withoutExtras := by
  cases i with
  | none => rfl
  | some i => exact getElem?_dropExtras h

theorem findIdx?_dropExtras {cs : List Node} (h : ∀ c ∈ cs, Tidy c) (r : Role) :
    (dropExtras cs).findIdx? (fun c => c.role == some r) =
      (cs.findIdx? fun c => c.role == some r).map (remaining cs) := by
  induction cs with
  | nil => rfl
  | cons c cs ih =>
      have hrest := ih fun d hd => h d (List.mem_cons_of_mem c hd)
      cases hc : c.kind.isExtra with
      | true =>
          have hrole : (c.role == some r) = false := by
            simp [((h c List.mem_cons_self).bare hc).1]
          rw [dropExtras_cons_extra hc, hrest, List.findIdx?_cons, hrole]
          simp [Function.comp_def, remaining_cons_extra hc]
      | false =>
          rw [dropExtras_cons hc, List.findIdx?_cons, List.findIdx?_cons, role_withoutExtras, hrest]
          cases c.role == some r <;> simp [Function.comp_def, remaining_cons hc]

theorem childIndex?_withoutExtras {n : Node} (h : Tidy n) (r : Role) :
    childIndex? (withoutExtras n) r = (childIndex? n r).map (remaining n.children) := by
  unfold childIndex?
  rw [children_withoutExtras, findIdx?_dropExtras fun c hc => h.child hc]

theorem isExtra_of_child? {n c : Node} {r : Role} (h : Tidy n) (hc : n.child? r = some c) :
    c.kind.isExtra = false := by
  have hrole : c.role = some r := by simpa using List.find?_some hc
  cases hextra : c.kind.isExtra with
  | true => simp [((h.child (Tree.mem_of_child? hc)).bare hextra).1] at hrole
  | false => rfl

/-- A child that plays a role is still found by it. -/
theorem child?_withoutExtras {n : Node} (h : Tidy n) (r : Role) :
    (withoutExtras n).child? r = (n.child? r).map withoutExtras := by
  rw [← getElem?_childIndex?, ← getElem?_childIndex?, childIndex?_withoutExtras h,
    children_withoutExtras]
  refine bind_dropExtras fun c hc => isExtra_of_child? h (r := r) ?_
  rwa [← getElem?_childIndex?]

theorem isNamed_extra {k : Kind} (h : k.isExtra = true) : k.isNamed = true := by
  cases k <;> simp_all [Kind.isExtra, Kind.isNamed]

theorem namedIndex?_dropExtras {j : Nat} {cs : List Node}
    (h : ∀ c ∈ (cs.filter (·.kind.isNamed)).take (j + 1), c.kind.isExtra = false) :
    namedIndex? j (dropExtras cs) = (namedIndex? j cs).map (remaining cs) := by
  induction cs generalizing j with
  | nil => rfl
  | cons c cs ih =>
      have hc : c.kind.isExtra = false := by
        cases hextra : c.kind.isExtra with
        | false => rfl
        | true => exact hextra ▸ h c (by simp [isNamed_extra hextra])
      rw [dropExtras_cons hc, namedIndex?_cons, namedIndex?_cons, kind_withoutExtras]
      cases hn : c.kind.isNamed with
      | false =>
          rw [List.filter_cons_of_neg (by simp [hn])] at h
          simp [ih h, Function.comp_def, remaining_cons hc]
      | true =>
          rw [List.filter_cons_of_pos (by simp [hn]), List.take_succ_cons] at h
          cases j with
          | zero => simp
          | succ j =>
              have hrest := ih fun d hd => h d (List.mem_cons_of_mem c hd)
              simp [hrest, Function.comp_def, remaining_cons hc]

/-! ### Conditions -/

mutual

/-- Whether no comparison that counts for the weight of a condition has a comment or a line
continuation among its children. -/
def isSettled : Node → Bool
  | .node k _ _ _ cs => (k != .comparisonOperator || cs.all fun c => !c.kind.isExtra) &&
      (!Condition.isOpen k || areSettled cs)

/-- Whether several nodes are settled. -/
def areSettled : List Node → Bool
  | [] => true
  | c :: cs => isSettled c && areSettled cs

end

theorem areSettled_iff (cs : List Node) : areSettled cs = true ↔ ∀ c ∈ cs, isSettled c = true := by
  induction cs with
  | nil => simp [areSettled]
  | cons c cs ih => rw [areSettled, Bool.and_eq_true, ih, List.forall_mem_cons]

theorem isSettled_iff (n : Node) : isSettled n = true ↔
    (n.kind = .comparisonOperator → ∀ c ∈ n.children, c.kind.isExtra = false) ∧
      (Condition.isOpen n.kind = true → ∀ c ∈ n.children, isSettled c = true) := by
  cases n with
  | node k r row text cs =>
      rw [isSettled, Bool.and_eq_true, Bool.or_eq_true, Bool.or_eq_true, areSettled_iff]
      simp [Tree.kind, Tree.children, Decidable.imp_iff_not_or]

namespace Condition

/-- Pending nodes without comments and line continuations. -/
def dropPending (ps : List Pending) : List Pending :=
  (ps.filter fun p => !p.node.kind.isExtra).map fun p => ⟨p.isLabel, withoutExtras p.node⟩

theorem dropPending_cons_extra {p : Pending} (h : p.node.kind.isExtra = true) (ps : List Pending) :
    dropPending (p :: ps) = dropPending ps := by
  simp [dropPending, h]

theorem dropPending_cons {p : Pending} (h : p.node.kind.isExtra = false) (ps : List Pending) :
    dropPending (p :: ps) = ⟨p.isLabel, withoutExtras p.node⟩ :: dropPending ps := by
  simp [dropPending, h]

theorem dropPending_append (ps qs : List Pending) :
    dropPending (ps ++ qs) = dropPending ps ++ dropPending qs := by
  simp [dropPending]

/-- A comment or a line continuation has no role, so that it is not taken for the label. -/
theorem labelled_dropExtras (label : Option Role) {cs : List Node} (h : ∀ c ∈ cs, Tidy c) :
    labelled label (dropExtras cs) = dropPending (labelled label cs) := by
  induction cs generalizing label with
  | nil => rfl
  | cons c cs ih =>
      obtain ⟨hc, hcs⟩ := List.forall_mem_cons.mp h
      rw [dropExtras, labelled]
      cases hextra : c.kind.isExtra with
      | true =>
          have hrole : ¬ (label.isSome = true ∧ c.role = label) := by
            rintro ⟨hsome, hrole⟩
            rw [← hrole, (hc.bare hextra).1] at hsome
            cases hsome
          rw [if_neg hrole, dropPending_cons_extra hextra, ← ih label hcs]
          rfl
      | false =>
          rw [if_neg Bool.false_ne_true, labelled, role_withoutExtras]
          split <;> rw [dropPending_cons hextra, ih _ hcs]

theorem pendingChildren_withoutExtras {t : Node} (h : Tidy t) :
    pendingChildren (withoutExtras t) = dropPending (pendingChildren t) := by
  unfold pendingChildren
  rw [children_withoutExtras, kind_withoutExtras, labelled_dropExtras _ fun c hc => h.child hc]

theorem own_extra {p : Pending} (h : p.node.kind.isExtra = true) (w : TokenWeight) :
    own p w = w := by
  unfold own
  cases hk : p.node.kind <;> simp_all [Kind.isExtra]

theorem namedCount_withoutExtras {t : Node} (h : ∀ c ∈ t.children, c.kind.isExtra = false) :
    namedCount (withoutExtras t) = namedCount t := by
  have hall : (t.children.filter fun c => !c.kind.isExtra) = t.children :=
    List.filter_eq_self.mpr fun c hc => by simp [h c hc]
  unfold namedCount
  rw [children_withoutExtras, dropExtras_eq, hall, List.countP_map]
  simp [Function.comp_def]

theorem own_withoutExtras {p : Pending} (h : isSettled p.node = true) (w : TokenWeight) :
    own ⟨p.isLabel, withoutExtras p.node⟩ w = own p w := by
  have hcount : p.node.kind = .comparisonOperator →
      namedCount (withoutExtras p.node) = namedCount p.node :=
    fun hk => namedCount_withoutExtras (((isSettled_iff _).mp h).1 hk)
  unfold own
  rw [kind_withoutExtras]
  cases hk : p.node.kind <;> simp_all

/-- Comments and line continuations add nothing to a weight in which no comparison has any. -/
theorem weigh_dropPending {ps : List Pending} (w : TokenWeight)
    (h : ∀ p ∈ ps, Tidy p.node ∧ isSettled p.node = true) :
    weigh (dropPending ps) w = weigh ps w := by
  -- the weigher's own recursion: an open node hands its children on, any other weighs by itself
  fun_induction weigh ps w with
  | case1 => simp [dropPending, weigh]
  | case2 p ps w hopen ih =>
      obtain ⟨htidy, hsettled⟩ := h p List.mem_cons_self
      have hrest : weigh (dropPending (pendingChildren p.node ++ ps)) (own p w) =
          weigh (pendingChildren p.node ++ ps) (own p w) := by
        refine ih fun q hq => ?_
        rcases List.mem_append.mp hq with hq | hq
        · have hc : q.node ∈ p.node.children := by
            rw [← map_node_labelled (labelRole? p.node.kind) p.node.children]
            exact List.mem_map_of_mem hq
          exact ⟨htidy.child hc, ((isSettled_iff _).mp hsettled).2 hopen q.node hc⟩
        · exact h q (List.mem_cons_of_mem p hq)
      rw [← hrest, dropPending_append]
      cases hextra : p.node.kind.isExtra with
      | true =>
          have hnil : pendingChildren p.node = [] := by
            rw [pendingChildren, (htidy.bare hextra).2, labelled]
          rw [dropPending_cons_extra hextra, own_extra hextra, hnil]
          rfl
      | false =>
          rw [dropPending_cons hextra, weigh, if_pos (by simpa using hopen),
            pendingChildren_withoutExtras htidy, own_withoutExtras hsettled]
  | case3 p ps w hopen ih =>
      have hextra : p.node.kind.isExtra = false := by
        cases hk : p.node.kind <;> simp_all [isOpen, Kind.isExtra]
      rw [dropPending_cons hextra, weigh, if_neg (by simpa using hopen),
        own_withoutExtras (h p List.mem_cons_self).2,
        ih fun q hq => h q (List.mem_cons_of_mem p hq)]

theorem weight_withoutExtras {c : Node} (htidy : Tidy c) (hsettled : isSettled c = true)
    (hc : c.kind.isExtra = false) : weight (withoutExtras c) = weight c := by
  have hdrop : dropPending [⟨false, c⟩] = [⟨false, withoutExtras c⟩] := dropPending_cons hc []
  unfold weight
  rw [← hdrop]
  refine weigh_dropPending _ fun p hp => ?_
  obtain rfl := List.mem_singleton.mp hp
  exact ⟨htidy, hsettled⟩

end Condition

/-! ### Constructs -/

theorem construct?_extra {k : Kind} (h : k.isExtra = true) : k.construct? = none := by
  cases k <;> simp_all [Kind.isExtra, Kind.construct?]

theorem constructs_below (n : Node) :
    constructs n = (n.children.flatMap nodesFrom).filterMap (·.kind.construct?) := by
  unfold constructs
  rw [Nesting.ahead_eq, List.flatMap_cons, List.flatMap_nil, List.append_nil]

theorem filterMap_construct?_dropExtras {cs : List Node} (htidy : ∀ c ∈ cs, Tidy c)
    (h : ∀ c ∈ cs, (nodesFrom (withoutExtras c)).filterMap (·.kind.construct?) =
      (nodesFrom c).filterMap (·.kind.construct?)) :
    ((dropExtras cs).flatMap nodesFrom).filterMap (·.kind.construct?) =
      (cs.flatMap nodesFrom).filterMap (·.kind.construct?) := by
  induction cs with
  | nil => rfl
  | cons c cs ih =>
      have hrest := ih (fun d hd => htidy d (List.mem_cons_of_mem c hd))
        (fun d hd => h d (List.mem_cons_of_mem c hd))
      rw [List.flatMap_cons, List.filterMap_append, ← hrest]
      cases hc : c.kind.isExtra with
      | true =>
          have hnone : (nodesFrom c).filterMap (·.kind.construct?) = [] := by
            rw [nodesFrom_eq, ((htidy c List.mem_cons_self).bare hc).2]
            simp [construct?_extra hc]
          rw [dropExtras_cons_extra hc, hnone, List.nil_append]
      | false =>
          rw [dropExtras_cons hc, List.flatMap_cons, List.filterMap_append,
            h c List.mem_cons_self]

theorem filterMap_construct?_withoutExtras {n : Node} (h : Tidy n) :
    (nodesFrom (withoutExtras n)).filterMap (·.kind.construct?) =
      (nodesFrom n).filterMap (·.kind.construct?) := by
  induction n using Tree.childInduction with
  | node n ih =>
      have hbelow := filterMap_construct?_dropExtras (fun c hc => h.child hc)
        (fun c hc => ih c hc (h.child hc))
      rw [nodesFrom_eq, nodesFrom_eq n, children_withoutExtras, List.filterMap_cons,
        List.filterMap_cons, hbelow, kind_withoutExtras]

/-- Comments and line continuations are no constructs. -/
theorem constructs_withoutExtras {n : Node} (h : Tidy n) :
    constructs (withoutExtras n) = constructs n := by
  rw [constructs_below, constructs_below, children_withoutExtras]
  exact filterMap_construct?_dropExtras (fun c hc => h.child hc)
    (fun c hc => filterMap_construct?_withoutExtras (h.child hc))

/-! ### Settled trees -/

/-- No comment and no line continuation stands where children are counted: none before the condition
of a conditional expression, and none in a comparison that counts for the weight of a scored
condition. -/
def Settled (t : Node) : Prop := ∀ m ∈ nodesFrom t,
  (m.kind = .conditionalExpression →
    ∀ c ∈ (m.children.filter (·.kind.isNamed)).take 2, c.kind.isExtra = false) ∧
  ∀ c ∈ condition? m, isSettled c = true

instance (t : Node) : Decidable (Settled t) :=
  inferInstanceAs (Decidable (∀ m ∈ nodesFrom t, _))

theorem Settled.child {n c : Node} (h : Settled n) (hc : c ∈ n.children) : Settled c :=
  fun m hm => h m (mem_nodesFrom_of_child hc hm)

theorem mem_of_condition? {n c : Node} (hc : c ∈ condition? n) : c ∈ n.children := by
  obtain ⟨i, -, hi⟩ := Option.bind_eq_some_iff.mp hc
  exact List.mem_of_getElem? hi

section

variable {n : Node} (htidy : Tidy n) (hsettled : Settled n)

include htidy hsettled

theorem isExtra_of_condition? : ∀ c ∈ condition? n, c.kind.isExtra = false := by
  intro c hc
  rw [condition?_eq] at hc
  split at hc
  · exact isExtra_of_child? htidy hc
  · exact isExtra_of_child? htidy hc
  · exact isExtra_of_child? htidy hc
  · next hk =>
      refine (hsettled n (mem_nodesFrom_self n)).1 hk c (List.mem_of_getElem? (i := 1) ?_)
      rw [List.getElem?_take_of_lt (by decide)]
      exact hc
  · cases hc

theorem conditionIndex?_withoutExtras :
    conditionIndex? (withoutExtras n) = (conditionIndex? n).map (remaining n.children) := by
  unfold conditionIndex?
  rw [kind_withoutExtras]
  split
  · exact childIndex?_withoutExtras htidy _
  · exact childIndex?_withoutExtras htidy _
  · exact childIndex?_withoutExtras htidy _
  · next hk =>
      rw [children_withoutExtras]
      exact namedIndex?_dropExtras ((hsettled n (mem_nodesFrom_self n)).1 hk)
  · rfl

theorem condition?_withoutExtras :
    condition? (withoutExtras n) = (condition? n).map withoutExtras := by
  unfold condition?
  rw [conditionIndex?_withoutExtras htidy hsettled, children_withoutExtras]
  exact bind_dropExtras (isExtra_of_condition? htidy hsettled)

theorem weight_condition? :
    ∀ c ∈ condition? n, Condition.weight (withoutExtras c) = Condition.weight c := by
  intro c hc
  exact Condition.weight_withoutExtras (htidy.child (mem_of_condition? hc))
    ((hsettled n (mem_nodesFrom_self n)).2 c hc) (isExtra_of_condition? htidy hsettled c hc)

end

/-! ### The traversal -/

theorem traverse_extra {n : Node} (htidy : Tidy n) (h : n.kind.isExtra = true) (w : Walker) :
    traverse n w = w := by
  rw [traverse_eq, (htidy.bare h).2]
  cases hk : n.kind <;> simp_all [Kind.isExtra, traverseAll]

theorem traverseClause_extra {n : Node} (h : n.kind.isExtra = true) (w : Walker) :
    traverseClause n w = w := by
  rw [traverseClause_eq]
  cases hk : n.kind <;> simp_all [Kind.isExtra]

/-- The traversal does the same with the extra nodes below a node and without them, where it visits
the node and where it visits it as a clause of an `if` statement. -/
def Unaffected (n : Node) : Prop :=
  traverse (withoutExtras n) = traverse n ∧ traverseClause (withoutExtras n) = traverseClause n

theorem traverseAll_dropExtras {cs : List Node} (htidy : ∀ c ∈ cs, Tidy c)
    (h : ∀ c ∈ cs, Unaffected c) {i : Option Nat}
    (hi : ∀ c ∈ i.bind (cs[·]?), c.kind.isExtra = false) (w : Walker) :
    traverseAll (i.map (remaining cs)) (dropExtras cs) w = traverseAll i cs w := by
  induction cs generalizing i w with
  | nil => cases i <;> rfl
  | cons c cs ih =>
      have hrest := @ih (fun d hd => htidy d (List.mem_cons_of_mem c hd))
        (fun d hd => h d (List.mem_cons_of_mem c hd))
      have hsame := (h c List.mem_cons_self).1
      -- a visit to an extra node does nothing, so that leaving it out changes nothing
      have hskip : c.kind.isExtra = true → traverse c = id :=
        fun hc => funext (traverse_extra (htidy c List.mem_cons_self) hc)
      match i with
      | none =>
          cases hc : c.kind.isExtra with
          | true =>
              rw [dropExtras_cons_extra hc, traverseAll, hskip hc]
              exact hrest (i := none) (by simp) w
          | false =>
              rw [dropExtras_cons hc]
              simp only [Option.map_none, traverseAll, hsame]
              exact hrest (i := none) (by simp) _
      | some 0 =>
          rw [dropExtras_cons (hi c rfl)]
          simp only [Option.map_some, remaining_zero, traverseAll, hsame]
          exact hrest (i := none) (by simp) _
      | some (i + 1) =>
          cases hc : c.kind.isExtra with
          | true =>
              rw [dropExtras_cons_extra hc, traverseAll, hskip hc, Option.map_some,
                remaining_cons_extra hc]
              exact hrest (i := some i) hi w
          | false =>
              rw [dropExtras_cons hc, Option.map_some, remaining_cons hc]
              simp only [traverseAll, hsame]
              exact hrest (i := some i) hi _

theorem traverseClauses_dropExtras {cs : List Node} (h : ∀ c ∈ cs, Unaffected c) (w : Walker) :
    traverseClauses (dropExtras cs) w = traverseClauses cs w := by
  induction cs generalizing w with
  | nil => rfl
  | cons c cs ih =>
      have hrest := ih fun d hd => h d (List.mem_cons_of_mem c hd)
      cases hc : c.kind.isExtra with
      | true => rw [dropExtras_cons_extra hc, traverseClauses, traverseClause_extra hc, hrest]
      | false =>
          rw [dropExtras_cons hc, traverseClauses, traverseClauses,
            (h c List.mem_cons_self).2, hrest]

theorem register_withoutExtras (w : Walker) (kind : Construct) (n : Node)
    {condition body : Option Node}
    (hc : ∀ c ∈ condition, Condition.weight (withoutExtras c) = Condition.weight c)
    (hb : ∀ b ∈ body, Tidy b) :
    w.register kind (withoutExtras n) (condition.map withoutExtras) (body.map withoutExtras) =
      w.register kind n condition body := by
  unfold Walker.register
  rw [row_withoutExtras]
  cases condition <;> cases body <;> simp_all [constructs_withoutExtras]

section

variable {n : Node} (htidy : Tidy n) (hsettled : Settled n)

include htidy

theorem nameOf_withoutExtras : nameOf (withoutExtras n) = nameOf n := by
  unfold nameOf
  rw [child?_withoutExtras htidy]
  cases n.child? .name <;> simp

theorem body?_withoutExtras : body? (withoutExtras n) = (body? n).map withoutExtras := by
  unfold body?
  rw [kind_withoutExtras]
  split <;> first | exact child?_withoutExtras htidy _ | rfl

theorem tidy_of_body? : ∀ b ∈ body? n, Tidy b := by
  intro b hb
  unfold body? at hb
  split at hb <;> first | exact htidy.child (Tree.mem_of_child? hb) | cases hb

theorem traverseFirst_withoutExtras (h : ∀ c ∈ n.children, Unaffected c) (r : Role) :
    traverseFirst r (withoutExtras n).children = traverseFirst r n.children := by
  have hchild := child?_withoutExtras htidy r
  cases hc : n.child? r with
  | none =>
      rw [hc] at hchild
      rw [traverseFirst_of_none hc, traverseFirst_of_none hchild]
  | some c =>
      rw [hc] at hchild
      rw [traverseFirst_of_some hc, traverseFirst_of_some hchild,
        (h c (Tree.mem_of_child? hc)).1]

theorem traverseBranch_withoutExtras (h : ∀ c ∈ n.children, Unaffected c) :
    traverseBranch (withoutExtras n) = traverseBranch n := by
  funext w
  unfold traverseBranch
  rw [traverseFirst_withoutExtras htidy h, traverseFirst_withoutExtras htidy h]

theorem traverseChildren_withoutExtras (h : ∀ c ∈ n.children, Unaffected c) (w : Walker) :
    traverseAll none (withoutExtras n).children w = traverseAll none n.children w := by
  rw [children_withoutExtras]
  exact traverseAll_dropExtras (fun c hc => htidy.child hc) h (i := none) (by simp) w

include hsettled

theorem traverseMarked_withoutExtras (h : ∀ c ∈ n.children, Unaffected c) (w : Walker) :
    traverseAll (conditionIndex? (withoutExtras n)) (withoutExtras n).children w =
      traverseAll (conditionIndex? n) n.children w := by
  rw [children_withoutExtras, conditionIndex?_withoutExtras htidy hsettled]
  exact traverseAll_dropExtras (fun c hc => htidy.child hc) h
    (isExtra_of_condition? htidy hsettled) w

/-- A construct is scored as before. -/
theorem score_withoutExtras (kind : Construct) (w : Walker) :
    w.register kind (withoutExtras n) (condition? (withoutExtras n)) (body? (withoutExtras n)) =
      w.register kind n (condition? n) (body? n) := by
  rw [condition?_withoutExtras htidy hsettled, body?_withoutExtras htidy]
  exact register_withoutExtras w kind n (weight_condition? htidy hsettled) (tidy_of_body? htidy)

theorem scoreBranch_withoutExtras (hk : n.kind = .ifStatement ∨ n.kind = .elifClause)
    (w : Walker) : scoreBranch w (withoutExtras n) = scoreBranch w n := by
  have hscore := score_withoutExtras htidy hsettled .ifBranch w
  simp only [condition?_eq, body?, kind_withoutExtras] at hscore
  rcases hk with hk | hk <;> simp only [hk] at hscore <;> exact hscore

theorem traverse_withoutExtras (h : ∀ c ∈ n.children, Unaffected c) :
    traverse (withoutExtras n) = traverse n := by
  have hall := traverseChildren_withoutExtras htidy h
  have hmarked := traverseMarked_withoutExtras htidy hsettled h
  have hscore := score_withoutExtras htidy hsettled
  simp only [condition?_eq, body?, kind_withoutExtras] at hscore
  funext w
  rw [traverse_eq, traverse_eq n, kind_withoutExtras]
  cases hk : n.kind <;> simp only [hk] at hscore
  case functionDefinition => simp only [hall, nameOf_withoutExtras htidy]
  case classDefinition => simp only [hall, nameOf_withoutExtras htidy]
  case ifStatement =>
    simp only [scoreBranch_withoutExtras htidy hsettled (.inl hk),
      traverseBranch_withoutExtras htidy h, children_withoutExtras, traverseClauses_dropExtras h]
  case whileStatement => simp only [hmarked, hscore]
  case forStatement => simp only [hall, hscore]
  case tryStatement => simp only [hall, hscore]
  case conditionalExpression => simp only [hmarked, hscore]
  case booleanOperator => exact hall _
  all_goals exact hall w

theorem unaffected_of_children (h : ∀ c ∈ n.children, Unaffected c) : Unaffected n := by
  refine ⟨traverse_withoutExtras htidy hsettled h, ?_⟩
  funext w
  rw [traverseClause_eq, traverseClause_eq n, kind_withoutExtras]
  cases hk : n.kind
  case elifClause =>
    simp only [scoreBranch_withoutExtras htidy hsettled (.inr hk),
      traverseBranch_withoutExtras htidy h]
  case elseClause => exact traverseChildren_withoutExtras htidy h w
  all_goals rfl

end

theorem unaffected {n : Node} (htidy : Tidy n) (hsettled : Settled n) : Unaffected n := by
  induction n using Tree.childInduction with
  | node n ih =>
      exact unaffected_of_children htidy hsettled fun c hc =>
        ih c hc (htidy.child hc) (hsettled.child hc)

/-- **Comments and line continuations do not count** in a settled tree: the breakdown of the tree of
a text, and of any other tidy tree, is that of the tree without them. -/
theorem breakdown_withoutExtras {t : Node} (h : (∃ source, parse? source = some t) ∨ Tidy t)
    (hsettled : Settled t) : breakdown (withoutExtras t) = breakdown t := by
  have htidy : Tidy t := by
    rcases h with ⟨source, hparse⟩ | htidy
    · exact tidy_of_parse? hparse
    · exact htidy
  rw [breakdown_eq, breakdown_eq, run_root, run_root, (unaffected htidy hsettled).1]

/-- A statement with a comment before it, a line continuation in its condition, a comment before its
consequence, and one after the condition of a conditional expression. -/
def annotated : Node :=
  .node .phrase none 0 "" [
    leaf .comment 0 "# head",
    .node .ifStatement none 1 "" [
      leaf .mark 1 "if",
      .node .booleanOperator (some .condition) 1 "" [
        .node .identifier (some .left) 1 "a" [], .node .mark (some .operator) 1 "and" [],
        leaf .lineContinuation 1 "\\\n", .node .identifier (some .right) 2 "b" []],
      leaf .mark 2 ":",
      leaf .comment 2 "# then",
      .node .phrase (some .consequence) 3 "" [
        .node .conditionalExpression none 3 "" [
          leaf .identifier 3 "c", leaf .mark 3 "if",
          .node .comparisonOperator none 3 "" [
            leaf .identifier 3 "d", .node .mark (some .operators) 3 "<" [],
            leaf .identifier 3 "e"],
          leaf .comment 3 "# else", leaf .mark 4 "else", leaf .identifier 4 "f"]]]]

/-- None of the four extra nodes counts. -/
theorem breakdown_withoutExtras_annotated : Tidy annotated ∧ Settled annotated ∧
    annotated.size = (withoutExtras annotated).size + 4 ∧
    breakdown (withoutExtras annotated) = breakdown annotated ∧ (breakdown annotated).dc = 18 := by
  have htidy : Tidy annotated := by decide
  have hsettled : Settled annotated := by decide
  refine ⟨htidy, hsettled, by decide, breakdown_withoutExtras (.inr htidy) hsettled, ?_⟩
  rw [dc_breakdown (by decide)]
  decide +kernel

/-- A comment inside the comparison that is the condition of an `if` statement. -/
def commentedComparison : Node :=
  .node .phrase none 0 "" [
    .node .ifStatement none 0 "" [
      leaf .mark 0 "if",
      .node .phrase (some .condition) 0 "" [
        leaf .mark 0 "(",
        .node .comparisonOperator none 0 "" [
          leaf .identifier 0 "a", .node .mark (some .operators) 0 "<" [],
          leaf .comment 0 "# c", leaf .identifier 1 "b"],
        leaf .mark 1 ")"],
      leaf .mark 1 ":",
      .node .phrase (some .consequence) 2 "" [
        .node .phrase none 2 "" [leaf .mark 2 "pass"]]]]

/-- A comment before the condition of a conditional expression. -/
def commentedChoice : Node :=
  .node .phrase none 0 "" [
    .node .conditionalExpression none 0 "" [
      leaf .identifier 0 "a", leaf .comment 0 "# c", leaf .mark 1 "if",
      .node .booleanOperator none 1 "" [
        .node .identifier (some .left) 1 "c" [], .node .mark (some .operator) 1 "and" [],
        .node .identifier (some .right) 1 "d" []],
      leaf .mark 1 "else", leaf .identifier 1 "b"]]

/-- The comment inside the comparison counts as one more comparison.  The other one is weighed as
the condition, so that the operator of the real one adds a path. -/
theorem extras_counted :
    Shaped commentedComparison ∧ Tidy commentedComparison ∧
    (breakdown commentedComparison).dc = 10 ∧
    (breakdown (withoutExtras commentedComparison)).dc = 8 ∧
    Shaped commentedChoice ∧ Tidy commentedChoice ∧
    (breakdown commentedChoice).dc = 2 ∧ (breakdown commentedChoice).cc = 3 ∧
    (breakdown (withoutExtras commentedChoice)).dc = 10 ∧
    (breakdown (withoutExtras commentedChoice)).cc = 2 := by
  have hcc : ∀ {t : Node}, Shaped t → (breakdown t).cc =
      1 + ((sites t).countP Site.isConstruct + (sites t).countP Site.isFreeOperator) := by
    intro t h
    rw [breakdown_result, foldl_perform_cc, acts_root h, countP_visits]
    rfl
  refine ⟨by decide, by decide, ?_, ?_, by decide, by decide, ?_, ?_, ?_, ?_⟩
  · rw [dc_breakdown (by decide)]
    decide +kernel
  · rw [dc_breakdown (by decide)]
    decide +kernel
  · rw [dc_breakdown (by decide)]
    decide +kernel
  · rw [hcc (by decide)]
    decide
  · rw [dc_breakdown (by decide)]
    decide +kernel
  · rw [hcc (by decide)]
    decide

end DecisionScore.Python
