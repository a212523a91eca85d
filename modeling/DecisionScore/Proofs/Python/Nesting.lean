import Mathlib.Data.List.Nodup
import Mathlib.Data.List.ProdSigma
import DecisionScore.Proofs.Breakdown
import DecisionScore.Proofs.Python.Scores

/-! # What is nested in what

A construct notes the constructs in its body, and these are found by a cursor that moves about
below the body.  `constructs_eq` shows that the cursor comes by every node below it once and in
document order, and `filter_isBelow` that the nodes below a site are the sites whose address goes
on from its own.  So what is noted of a kind at a level is the number of pairs of a construct of
that kind there and a construct in its body (`noted_breakdown`). -/

namespace DecisionScore.Python

/-! ### The nodes of a tree -/

/-- A node and all nodes below it, in document order. -/
def nodesFrom (n : Node) : List Node := (sitesFrom [] n).map Site.node

theorem map_node_sitesBelow_of_mem {n : Node} {above : List Ancestor} {cs : List Node}
    (h : ∀ c ∈ cs, ∀ above, (sitesFrom above c).map Site.node = nodesFrom c) (i : Nat) :
    (sitesBelow n above i cs).map Site.node = cs.flatMap nodesFrom := by
  induction cs generalizing i with
  | nil => simp
  | cons c cs ih =>
      rw [sitesBelow_cons, List.map_append, h c List.mem_cons_self,
        ih fun d hd => h d (List.mem_cons_of_mem c hd), List.flatMap_cons]

/-- The nodes that the sites stand for do not depend on what is above. -/
theorem map_node_sitesFrom (above : List Ancestor) (n : Node) :
    (sitesFrom above n).map Site.node = nodesFrom n := by
  induction n using Tree.childInduction generalizing above with
  | node n ih =>
      rw [nodesFrom, sitesFrom_eq, sitesFrom_eq, List.map_cons, List.map_cons,
        map_node_sitesBelow_of_mem ih, map_node_sitesBelow_of_mem ih]

theorem map_node_sitesBelow (n : Node) (above : List Ancestor) (i : Nat) (cs : List Node) :
    (sitesBelow n above i cs).map Site.node = cs.flatMap nodesFrom :=
  map_node_sitesBelow_of_mem (fun c _ above => map_node_sitesFrom above c) i

theorem nodesFrom_eq (n : Node) : nodesFrom n = n :: n.children.flatMap nodesFrom := by
  rw [← map_node_sitesFrom [], sitesFrom_eq, List.map_cons, map_node_sitesBelow]

/-! ### The cursor -/

/-- The cursor comes by all nodes ahead of it, level by level. -/
theorem Nesting.ahead_eq (ls : Levels) :
    ahead ls = (ls.flatMap (·.flatMap nodesFrom)).filterMap (·.kind.construct?) := by
  induction ls using ahead.induct with
  | case1 => rw [ahead]; rfl
  | case2 up ih => rw [ahead, ih, List.flatMap_cons, List.flatMap_nil, List.nil_append]
  | case3 n siblings up ih =>
      rw [ahead, ih]
      simp only [List.flatMap_cons, nodesFrom_eq n, List.cons_append, List.append_assoc,
        List.filterMap_cons]
      cases n.kind.construct? <;> rfl

/-- The constructs found below a node are those of the sites below it, in document order. -/
theorem constructs_eq (n : Node) (above : List Ancestor) : constructs n =
    (sitesBelow n above 0 n.children).filterMap fun q => q.node.kind.construct? := by
  unfold constructs
  rw [Nesting.ahead_eq, List.flatMap_cons, List.flatMap_nil, List.append_nil,
    ← map_node_sitesBelow n above 0, List.filterMap_map]
  rfl

/-! ### Sites below a site -/

/-- Whether a site is below another one: its address leads through that of the other one, and
further. -/
def Site.isBelow (q p : Site) : Bool :=
  p.address.isSuffixOf q.address && decide (p.address.length < q.address.length)

theorem Site.isBelow_iff (q p : Site) : q.isBelow p = true ↔
    p.address <:+ q.address ∧ p.address.length < q.address.length := by
  simp [isBelow]

theorem isBelow_of_mem {n c : Node} {above : List Ancestor} {j : Nat} {q : Site}
    (h : q ∈ sitesFrom (⟨n, j⟩ :: above) c) : q.isBelow ⟨n, above⟩ = true := by
  have hsuffix : j :: addressOf above <:+ q.address := suffix_of_mem_sitesFrom h
  refine (q.isBelow_iff _).mpr ⟨(List.suffix_cons j _).trans hsuffix, ?_⟩
  exact hsuffix.length_le

/-- What is below one child of a node is not below a site below another child. -/
theorem isBelow_eq_false {n c d : Node} {above : List Ancestor} {i j : Nat} {p q : Site}
    (hp : p ∈ sitesFrom (⟨n, i⟩ :: above) c) (hq : q ∈ sitesFrom (⟨n, j⟩ :: above) d)
    (hij : i ≠ j) : q.isBelow p = false := by
  rw [Bool.eq_false_iff]
  intro h
  have hpi : i :: addressOf above <:+ p.address := suffix_of_mem_sitesFrom hp
  have hqj : j :: addressOf above <:+ q.address := suffix_of_mem_sitesFrom hq
  exact hij (eq_of_suffix_cons (hpi.trans ((q.isBelow_iff p).mp h).1) hqj)

/-- A node is not below what is below it. -/
theorem not_isBelow_of_mem {n c : Node} {above : List Ancestor} {j : Nat} {p : Site}
    (h : p ∈ sitesFrom (⟨n, j⟩ :: above) c) : ¬ Site.isBelow ⟨n, above⟩ p = true := by
  intro hbelow
  have hlt := ((p.isBelow_iff ⟨n, above⟩).mp (isBelow_of_mem h)).2
  have hgt := ((Site.isBelow_iff ⟨n, above⟩ p).mp hbelow).2
  omega

theorem filter_isBelow_children {n : Node} {above : List Ancestor} {p : Site} {cs : List Node}
    (h : ∀ c ∈ cs, ∀ above, p ∈ sitesFrom above c →
      (sitesFrom above c).filter (·.isBelow p) = sitesBelow p.node p.above 0 p.node.children)
    (i : Nat) (hp : p ∈ sitesBelow n above i cs) :
    (sitesBelow n above i cs).filter (·.isBelow p) =
      sitesBelow p.node p.above 0 p.node.children := by
  induction cs generalizing i with
  | nil => simp at hp
  | cons c cs ih =>
      rw [sitesBelow_cons] at hp ⊢
      rw [List.filter_append]
      rcases List.mem_append.mp hp with hp | hp
      · have hrest : (sitesBelow n above (i + 1) cs).filter (·.isBelow p) = [] := by
          rw [List.filter_eq_nil_iff]
          intro q hq
          obtain ⟨j, d, hj, -, hq⟩ := exists_of_mem_sitesBelow hq
          simp [isBelow_eq_false hp hq (by omega)]
        rw [hrest, List.append_nil]
        exact h c List.mem_cons_self _ hp
      · obtain ⟨j, d, hj, -, hpj⟩ := exists_of_mem_sitesBelow hp
        have hfirst : (sitesFrom (⟨n, i⟩ :: above) c).filter (·.isBelow p) = [] := by
          rw [List.filter_eq_nil_iff]
          intro q hq
          simp [isBelow_eq_false hpj hq (by omega)]
        rw [hfirst, List.nil_append]
        exact ih (fun d hd => h d (List.mem_cons_of_mem c hd)) (i + 1) hp

/-- **The sites of a tree that are below one of them** are those that its children lead to. -/
theorem filter_isBelow {above : List Ancestor} {n : Node} {p : Site}
    (h : p ∈ sitesFrom above n) : (sitesFrom above n).filter (·.isBelow p) =
      sitesBelow p.node p.above 0 p.node.children := by
  induction n using Tree.childInduction generalizing above with
  | node n ih =>
      rw [sitesFrom_eq] at h ⊢
      rcases List.mem_cons.mp h with rfl | h
      · have hself : ¬ Site.isBelow ⟨n, above⟩ ⟨n, above⟩ = true := by simp [Site.isBelow]
        rw [List.filter_cons_of_neg (p := (Site.isBelow · _)) hself, List.filter_eq_self]
        intro q hq
        obtain ⟨j, c, -, -, hq⟩ := exists_of_mem_sitesBelow hq
        exact isBelow_of_mem hq
      · obtain ⟨j, c, -, -, hp⟩ := exists_of_mem_sitesBelow h
        rw [List.filter_cons_of_neg (p := (Site.isBelow · p)) (not_isBelow_of_mem hp)]
        exact filter_isBelow_children (fun c hc above => ih c hc) 0 h

/-! ### Bodies -/

/-- The number of the child that is the body of a construct. -/
def bodyIndex? (n : Node) : Option Nat :=
  match n.kind with
  | .ifStatement | .elifClause => childIndex? n .consequence
  | .whileStatement | .forStatement | .tryStatement => childIndex? n .body
  | _ => none

/-- The site of a child. -/
def Site.child? (p : Site) (i : Nat) : Option Site :=
  (p.node.children[i]?).map fun c => ⟨c, ⟨p.node, i⟩ :: p.above⟩

/-- The site of the body of a construct. -/
def Site.body? (p : Site) : Option Site := (bodyIndex? p.node).bind p.child?

/-- Whether a site is a construct of a kind. -/
def Site.isOfKind (k : Construct) (p : Site) : Bool := p.node.kind.construct? == some k

/-- Whether a site is beneath the body of a construct. -/
def Site.isInBody (q p : Site) : Bool := p.body?.any q.isBelow

theorem Site.map_node_body? (p : Site) : p.body?.map Site.node = Python.body? p.node := by
  have hchild : ∀ r, ((childIndex? p.node r).bind p.child?).map Site.node = p.node.child? r := by
    intro r
    rw [← getElem?_childIndex?, Option.map_bind]
    refine Option.bind_congr fun i _ => ?_
    simp [Site.child?, Function.comp_def]
  unfold Site.body? bodyIndex? Python.body?
  cases p.node.kind
  case ifStatement => exact hchild .consequence
  case elifClause => exact hchild .consequence
  case whileStatement => exact hchild .body
  case forStatement => exact hchild .body
  case tryStatement => exact hchild .body
  all_goals rfl

theorem mem_sitesBelow_of_getElem? (n : Node) (above : List Ancestor) {c : Node} {cs : List Node}
    {i : Nat} (h : cs[i]? = some c) (j : Nat) :
    ⟨c, ⟨n, j + i⟩ :: above⟩ ∈ sitesBelow n above j cs := by
  induction cs generalizing i j with
  | nil => simp at h
  | cons d cs ih =>
      rw [sitesBelow_cons, List.mem_append]
      cases i with
      | zero =>
          obtain rfl : d = c := by simpa using h
          left
          rw [sitesFrom_eq]
          exact List.mem_cons_self
      | succ i =>
          right
          have hrest := ih (i := i) (by simpa using h) (j + 1)
          rwa [Nat.add_assoc, Nat.add_comm 1] at hrest

/-- The body of a construct of a tree is a site of the tree. -/
theorem mem_sites_of_body? {t : Node} {p b : Site} (hp : p ∈ sites t) (hb : p.body? = some b) :
    b ∈ sites t := by
  obtain ⟨i, -, hi⟩ := Option.bind_eq_some_iff.mp hb
  obtain ⟨c, hc, rfl⟩ := Option.map_eq_some_iff.mp hi
  have hmem : (⟨c, ⟨p.node, i⟩ :: p.above⟩ : Site) ∈
      sitesBelow p.node p.above 0 p.node.children := by
    simpa using mem_sitesBelow_of_getElem? p.node p.above hc 0
  have hbelow : (sites t).filter (·.isBelow p) = sitesBelow p.node p.above 0 p.node.children :=
    filter_isBelow hp
  rw [← hbelow] at hmem
  exact List.mem_of_mem_filter hmem

/-- What a construct finds in its body: the sites of the tree that are beneath the body. -/
theorem count_found {t : Node} {p : Site} {r : Walk.Registration} (hp : p ∈ sites t)
    (hr : p.registration? = some r) (child : Construct) : r.found.count child =
      (sites t).countP fun q => q.isOfKind child && q.isInBody p := by
  have hbody : r.body = p.body?.map Site.node := by
    obtain ⟨k, -, rfl⟩ := Option.map_eq_some_iff.mp hr
    exact p.map_node_body?.symm
  unfold Walk.Registration.found Site.isInBody
  rw [hbody]
  cases hb : p.body? with
  | none => simp
  | some b =>
      have hbelow : (sites t).filter (·.isBelow b) =
          sitesBelow b.node b.above 0 b.node.children := filter_isBelow (mem_sites_of_body? hp hb)
      simp only [Option.map_some, Option.any_some]
      rw [constructs_eq b.node b.above, ← hbelow, List.count_filterMap, List.countP_filter]
      rfl

/-! ### Notes -/

namespace Walk

theorem noted_noteAll (kind : Construct) (depth : Nat) (found : List Construct)
    (parent : Construct) (d : Nat) (child : Construct) (s : Structures) :
    (found.foldl (fun s child => s.noteNested kind depth child) s).noted parent d child =
      s.noted parent d child + if kind = parent ∧ depth = d then found.count child else 0 := by
  induction found generalizing s with
  | nil => simp
  | cons c found ih =>
      rw [List.foldl_cons, ih, Structures.noted_noteNested, List.count_cons]
      by_cases h : kind = parent ∧ depth = d
      · obtain ⟨rfl, rfl⟩ := h
        by_cases hc : c = child
        · simp [hc]
          omega
        · simp [hc, Ne.symm hc]
      · have hne : ¬ (parent = kind ∧ d = depth ∧ child = c) := fun hn =>
          h ⟨hn.1.symm, hn.2.1.symm⟩
        rw [if_neg h, if_neg h, if_neg hne]

/-- What a construct notes: what it finds, under its own kind and depth. -/
theorem noted_addTo (r : Registration) (b : Breakdown) (parent : Construct) (d : Nat)
    (child : Construct) : (r.addTo b).structures.noted parent d child =
      b.structures.noted parent d child +
        if r.kind = parent ∧ r.depth = d then r.found.count child else 0 := by
  rw [r.addTo_eq]
  show Structures.noted (r.found.foldl _ _) parent d child = _
  rw [noted_noteAll, Structures.noted_record]

/-- Every depth that has notes has occurrences, and the other way round. -/
def Keyed (s : Structures) : Prop := ∀ k r, s.get? k = some r → ∀ d,
  (r.nestedConditions.get? d).isSome = (r.levelCounts.get? d).isSome

/-- The kind has occurred at the depth. -/
def Occurs (s : Structures) (k : Construct) (d : Nat) : Prop :=
  ∃ r, s.get? k = some r ∧ (r.levelCounts.get? d).isSome = true

theorem keyed_record {s : Structures} (h : Keyed s) (kind : Construct) (depth : Nat) :
    Keyed (s.record kind depth) ∧ Occurs (s.record kind depth) kind depth := by
  have hrecord : ∀ r : StructureRecord,
      (∀ d, (r.nestedConditions.get? d).isSome = (r.levelCounts.get? d).isSome) → ∀ d,
      ((r.record depth).nestedConditions.get? d).isSome =
        ((r.record depth).levelCounts.get? d).isSome := by
    intro r hr d
    simp only [StructureRecord.record, SortedMap.get?_upsert]
    split
    · rfl
    · exact hr d
  constructor
  · intro k r hr
    rw [Structures.get?_record] at hr
    split at hr
    · obtain rfl := Option.some.inj hr
      cases hk : s.get? kind with
      | none => exact hrecord .empty fun d => rfl
      | some r => exact hrecord r (h kind r hk)
    · exact h k r hr
  · refine ⟨_, (Structures.get?_record _ _ _ _).trans (if_pos rfl), ?_⟩
    simp [StructureRecord.record, SortedMap.get?_upsert]

theorem keyed_noteNested {s : Structures} {kind : Construct} {depth : Nat} (h : Keyed s)
    (ho : Occurs s kind depth) (child : Construct) : Keyed (s.noteNested kind depth child) ∧
      Occurs (s.noteNested kind depth child) kind depth := by
  obtain ⟨q, hq, hlevel⟩ := ho
  have hget : ∀ k, (s.noteNested kind depth child).get? k =
      if k = kind then some (q.noteNested depth child) else s.get? k := by
    intro k
    rw [Structures.get?_noteNested, hq]
    rfl
  constructor
  · intro k r hr d
    rw [hget] at hr
    split at hr
    · obtain rfl := Option.some.inj hr
      simp only [StructureRecord.noteNested, SortedMap.get?_upsert]
      split
      · next hd =>
          subst hd
          exact hlevel.symm
      · exact h kind q hq d
    · exact h k r hr d
  · exact ⟨_, (hget kind).trans (if_pos rfl), hlevel⟩

theorem keyed_noteAll {kind : Construct} {depth : Nat} (found : List Construct) {s : Structures}
    (h : Keyed s) (ho : Occurs s kind depth) :
    Keyed (found.foldl (fun s child => s.noteNested kind depth child) s) := by
  induction found generalizing s with
  | nil => exact h
  | cons c found ih =>
      obtain ⟨hk, hoc⟩ := keyed_noteNested h ho c
      exact ih hk hoc

theorem keyed_registrations (rs : List Registration) {s : Structures} (h : Keyed s) :
    Keyed (rs.foldl (fun s r => r.found.foldl (fun s child => s.noteNested r.kind r.depth child)
      (s.record r.kind r.depth)) s) := by
  induction rs generalizing s with
  | nil => exact h
  | cons r rs ih =>
      obtain ⟨hk, ho⟩ := keyed_record h r.kind r.depth
      exact ih (keyed_noteAll r.found hk ho)

end Walk

open Walk

/-! ### Pairs of constructs -/

/-- The pairs of a construct of one kind at a level and a construct of another kind beneath its
body. -/
def nestings (t : Node) (parent : Construct) (depth : Nat) (child : Construct) :
    List (Site × Site) :=
  (sites t ×ˢ sites t).filter fun pq =>
    (pq.1.isOfKind parent && pq.1.level == depth) && (pq.2.isOfKind child && pq.2.isInBody pq.1)

theorem length_filter_product {α β : Type*} (f : α → Bool) (g : α → β → Bool) (l : List α)
    (m : List β) : ((l ×ˢ m).filter fun x => f x.1 && g x.1 x.2).length =
      (l.map fun a => if f a then m.countP (g a) else 0).sum := by
  induction l with
  | nil => rfl
  | cons a l ih =>
      rw [List.product_cons, List.filter_append, List.length_append, ih, List.map_cons,
        List.sum_cons, List.filter_map, List.length_map]
      cases hf : f a <;> simp [hf, Function.comp_def, List.countP_eq_length_filter]

theorem nodup_nestings (t : Node) (parent : Construct) (depth : Nat) (child : Construct) :
    (nestings t parent depth child).Nodup := by
  have hsites : (sites t).Nodup := List.Nodup.of_map _ (nodup_sitesFrom [] t)
  exact (hsites.product hsites).filter _

/-- The notes of a tree are the pairs of its constructs. -/
theorem noted_breakdown {t : Node} (h : Shaped t) (parent : Construct) (depth : Nat)
    (child : Construct) : (breakdown t).structures.noted parent depth child =
      (nestings t parent depth child).length := by
  have hpart := breakdown_part (fun b => b.structures.noted parent depth child)
    (fun n r => n + if r.kind = parent ∧ r.depth = depth then r.found.count child else 0)
    (fun b r => noted_addTo r b parent depth child) (fun _ _ => rfl) (fun _ _ => rfl)
    (fun _ _ => rfl) h
  have hsum : ∀ ps : List Site, (∀ p ∈ ps, p ∈ sites t) →
      ((ps.filterMap Site.registration?).map fun r =>
        if r.kind = parent ∧ r.depth = depth then r.found.count child else 0).sum =
      (ps.map fun p => if p.isOfKind parent && p.level == depth then
        (sites t).countP (fun q => q.isOfKind child && q.isInBody p) else 0).sum := by
    intro ps hps
    induction ps with
    | nil => rfl
    | cons p ps ih =>
        have hrest := ih fun q hq => hps q (List.mem_cons_of_mem p hq)
        rw [List.filterMap_cons, List.map_cons, List.sum_cons]
        cases hr : p.registration? with
        | none =>
            have hk : p.node.kind.construct? = none := by
              simpa [Site.registration?] using hr
            simp [Site.isOfKind, hk, hrest]
        | some r =>
            obtain ⟨hk, -, hd, -⟩ := registration?_eq_some hr
            rw [List.map_cons, List.sum_cons, hrest, count_found (hps p List.mem_cons_self) hr, hd]
            simp [Site.isOfKind, hk]
  have hzero : Breakdown.baseline.structures.noted parent depth child = 0 := rfl
  rw [hpart, hzero, ← List.foldl_map, ← List.sum_eq_foldl, hsum _ fun p hp => hp]
  exact (length_filter_product (fun p : Site => p.isOfKind parent && p.level == depth)
    (fun p q : Site => q.isOfKind child && q.isInBody p) _ _).symm

theorem keyed_breakdown {t : Node} (h : Shaped t) : Keyed (breakdown t).structures := by
  have hpart := breakdown_part (·.structures)
    (fun s r => r.found.foldl (fun s child => s.noteNested r.kind r.depth child)
      (s.record r.kind r.depth))
    (fun b r => by rw [r.addTo_eq]) (fun _ _ => rfl) (fun _ _ => rfl) (fun _ _ => rfl) h
  rw [hpart]
  exact keyed_registrations _ fun k r hr => by cases hr

/-- **What is noted of a kind at a level** is the number of pairs of a construct of that kind at
that level and a construct beneath its body; nothing in a condition or in another clause counts.
A kind has an entry for just the levels it occurs at. -/
theorem nestings_counted {t : Node} (h : Grammatical t) :
    (∀ parent depth child, (nestings t parent depth child).Nodup ∧
      (breakdown t).structures.noted parent depth child =
        (nestings t parent depth child).length) ∧
      ∀ k r, (breakdown t).structures.get? k = some r →
        ∀ d, d ∈ r.nestedConditions.keys ↔ d ∈ r.levelCounts.keys := by
  have hs := h.shaped
  refine ⟨fun parent depth child => ⟨nodup_nestings t parent depth child,
    noted_breakdown hs parent depth child⟩, fun k r hr d => ?_⟩
  rw [SortedMap.mem_keys, SortedMap.mem_keys, keyed_breakdown hs k r hr d]

/-- The `if` of the sample has a `while` in its body.  The `for` in its `else` clause and the
conditional expression in the condition of its `elif` do not count for it, nor for the `elif`. -/
theorem nestings_counted_sample : Shaped sample ∧
    (breakdown sample).structures.noted .ifBranch 1 .whileLoop = 1 ∧
    (breakdown sample).structures.noted .ifBranch 1 .forLoop = 0 ∧
    (breakdown sample).structures.noted .ifBranch 2 .ternary = 0 := by
  have hshaped : Shaped sample := by decide
  obtain ⟨hnoted, -⟩ := nestings_counted (.inr hshaped)
  refine ⟨hshaped, ?_, ?_, ?_⟩
  · rw [(hnoted _ _ _).2]
    decide +kernel
  · rw [(hnoted _ _ _).2]
    decide +kernel
  · rw [(hnoted _ _ _).2]
    decide +kernel

end DecisionScore.Python
