import DecisionScore.Proofs.Merge
import DecisionScore.Proofs.Python.Nesting
import DecisionScore.Proofs.Python.Scopes
import DecisionScore.Proofs.Python.Sound

/-! # Statements one after the other

Nothing a task does depends on what was scored before it: `behind b` puts a breakdown in front of
that of a walker, and a run from there is the run without it (`run_behind`).  Every statement of a
module leaves the walk as it found it, up to the scores, so that the breakdown of a module is merged
from those of its statements (`ofStatements_append`).

Therefore the order of the statements shows only in the lists of levels and, where two definitions
have one name, in which of them counts.  For the latter no scope is stored but under the name of a
definition in the tree (`keys_stored_subset`). -/

namespace DecisionScore.Python.Walk

/-! ### A walk behind another one -/

/-- The state of a walk if there is a breakdown in front of its own. -/
def Walker.behind (b : Breakdown) (w : Walker) : Walker := { w with result := b.merge w.result }

theorem noteAll_merge (b c : Breakdown) (kind : Construct) (depth : Nat) (found : List Construct) :
    Walker.noteAll (b.merge c) kind depth found = b.merge (Walker.noteAll c kind depth found) := by
  unfold Walker.noteAll
  induction found generalizing c with
  | nil => rfl
  | cons child found ih => rw [List.foldl_cons, List.foldl_cons, ← Breakdown.merge_noteNested, ih]

theorem closeMethod_behind (b : Breakdown) (w : Walker) :
    (w.behind b).closeMethod = w.closeMethod.behind b := by
  obtain ⟨depth, inCondition, methods, classes, result⟩ := w
  cases methods with
  | nil => rfl
  | cons s ss =>
      exact congrArg (Walker.mk depth inCondition ss classes) (b.merge_closeMethod result s).symm

theorem closeClass_behind (b : Breakdown) (w : Walker) :
    (w.behind b).closeClass = w.closeClass.behind b := by
  obtain ⟨depth, inCondition, methods, classes, result⟩ := w
  cases classes with
  | nil => rfl
  | cons s ss =>
      exact congrArg (Walker.mk depth inCondition methods ss) (b.merge_closeClass result s).symm

section
variable {b : Breakdown} (h : 1 ≤ b.cc)
include h

theorem register_behind (w : Walker) (kind : Construct) (n : Node) (condition body : Option Node) :
    (w.behind b).register kind n condition body = (w.register kind n condition body).behind b := by
  unfold Walker.register Walker.behind
  simp only [← noteAll_merge, Breakdown.merge_record, Breakdown.merge_score h]

theorem addOperatorPath_behind (w : Walker) :
    (w.behind b).addOperatorPath = w.addOperatorPath.behind b := by
  obtain ⟨depth, inCondition, methods, classes, result⟩ := w
  have hpaths := (Breakdown.merge_addPaths h result 1).symm
  cases methods with
  | nil => exact congrArg (Walker.mk depth inCondition [] _) hpaths
  | cons s ss => exact congrArg (Walker.mk depth inCondition (_ :: ss) classes) hpaths

theorem visit_behind (w : Walker) (n : Node) :
    visit (w.behind b) n = ((visit w n).1.behind b, (visit w n).2) := by
  have hdescend : (w.behind b).descend = w.descend.behind b := rfl
  unfold visit scoreBranch
  rw [hdescend]
  simp only [register_behind h]
  cases n.kind
  case booleanOperator =>
    by_cases hfree : w.inCondition = 0
    · have hfree' : (w.behind b).inCondition = 0 := hfree
      simp only [hfree, hfree', if_true, addOperatorPath_behind h]
    · have hfree' : (w.behind b).inCondition ≠ 0 := hfree
      simp only [hfree, hfree', if_false]
  all_goals rfl

/-- **One task.** -/
theorem step_behind (w : Walker) (t : Task) :
    step (w.behind b) t = ((step w t).1.behind b, (step w t).2) := by
  cases t with
  | visit n => exact visit_behind h w n
  | elif n => exact congrArg (·, branchTasks n) (register_behind h w.descend _ _ _ _)
  | closeMethod => exact congrArg (·, []) (closeMethod_behind b w)
  | closeClass => exact congrArg (·, []) (closeClass_behind b w)
  | condition n => rfl
  | endCondition => rfl
  | ascend => rfl

/-- **All tasks.** -/
theorem run_behind (ts : List Task) (w : Walker) :
    run ts (w.behind b) = (run ts w).behind b := by
  induction ts, w using run.induct with
  | case1 w => rw [run_nil, run_nil]
  | case2 t ts w ih =>
      rw [run_cons, run_cons]
      simp only [step_behind h]
      exact ih

end

/-! ### Statements -/

/-- The breakdown of statements one after the other. -/
def ofStatements (cs : List Node) : Breakdown := (run (visits cs) .initial).result

/-- A module only visits its statements. -/
theorem breakdown_of_phrase {n : Node} (h : n.kind = .phrase) :
    breakdown n = ofStatements n.children := by
  have hstep : step .initial (.visit n) = (.initial, visits n.children) := by
    show visit .initial n = _
    unfold visit
    simp only [h]
  rw [breakdown_eq, run_cons, hstep, List.append_nil]
  rfl

theorem one_le_cc_ofStatements (cs : List Node) : 1 ≤ (ofStatements cs).cc := by
  have hconsistent := consistent_breakdown (.node .phrase none 0 "" cs)
  rw [breakdown_of_phrase rfl] at hconsistent
  exact hconsistent.one_le_cc

/-- Statements leave nothing behind but their scores. -/
theorem run_visits (cs : List Node) (rest : List Task) :
    run (visits cs ++ rest) .initial = run rest (Walker.behind (ofStatements cs) .initial) := by
  have hall : ∀ c ∈ cs, Agrees c := fun c _ => agrees c
  obtain ⟨hdoes, hkeeps⟩ := agrees_all hall none .initial
  rw [← visits_eq_marked] at hdoes
  have hresult : ofStatements cs = (traverseAll none cs .initial).result := by
    unfold ofStatements
    rw [hdoes.run]
  have hstate : Walker.behind (ofStatements cs) .initial = traverseAll none cs .initial := by
    rw [hresult]
    generalize traverseAll none cs .initial = w at hkeeps
    obtain ⟨depth, inCondition, methods, classes, result⟩ := w
    obtain ⟨rfl, rfl, hmethods, hclasses⟩ := hkeeps
    obtain rfl := eq_nil_of_names hmethods
    obtain rfl := eq_nil_of_names hclasses
    exact congrArg (Walker.mk 0 0 [] []) result.merge_baseline
  rw [hdoes.run_eq, hstate]

theorem ofStatements_append (cs ds : List Node) :
    ofStatements (cs ++ ds) = (ofStatements cs).merge (ofStatements ds) := by
  have hvisits : visits (cs ++ ds) = visits cs ++ visits ds := List.map_append
  unfold ofStatements
  rw [hvisits, run_visits, run_behind (one_le_cc_ofStatements cs)]
  rfl

/-! ### The names of scopes -/

/-- The names of the definitions of one kind in a tree, in document order. -/
def definitionNames (k : ScopeKind) (n : Node) : List String :=
  ((nodesFrom n).filter fun d => d.kind = k.definition).map nameOf

/-- The names of the definitions below a node. -/
def namesBelow (k : ScopeKind) (n : Node) : List String :=
  n.children.flatMap (definitionNames k)

theorem definitionNames_eq (k : ScopeKind) (n : Node) : definitionNames k n =
    (if n.kind = k.definition then [nameOf n] else []) ++ namesBelow k n := by
  have hbelow : ((n.children.flatMap nodesFrom).filter fun d => d.kind = k.definition).map nameOf =
      namesBelow k n := by
    rw [List.filter_flatMap, List.map_flatMap]
    rfl
  unfold definitionNames
  rw [nodesFrom_eq, List.filter_cons]
  by_cases h : n.kind = k.definition
  · simp [h, hbelow]
  · simp [h, hbelow]

/-- The names of the definitions that a task has to do with. -/
def Task.names (k : ScopeKind) : Task → List String
  | .visit n | .condition n | .elif n => definitionNames k n
  | _ => []

/-- The names of the definitions that are still to be visited. -/
def namesAhead (k : ScopeKind) (ts : List Task) : List String := ts.flatMap (Task.names k)

theorem namesAhead_marked (k : ScopeKind) (i : Option Nat) (cs : List Node) :
    namesAhead k (marked i cs) = cs.flatMap (definitionNames k) := by
  induction cs generalizing i with
  | nil => cases i <;> rfl
  | cons c cs ih =>
      unfold namesAhead at ih ⊢
      match i with
      | none => rw [marked, List.flatMap_cons, ih, List.flatMap_cons]; rfl
      | some 0 => rw [marked, List.flatMap_cons, ih, List.flatMap_cons]; rfl
      | some (i + 1) => rw [marked, List.flatMap_cons, ih, List.flatMap_cons]; rfl

theorem namesAhead_append (k : ScopeKind) (ts us : List Task) :
    namesAhead k (ts ++ us) = namesAhead k ts ++ namesAhead k us := List.flatMap_append

theorem namesBelow_subset (k : ScopeKind) (n : Node) : namesBelow k n ⊆ definitionNames k n := by
  rw [definitionNames_eq]
  exact List.subset_append_right _ _

theorem subset_namesBelow (k : ScopeKind) {n c : Node} (h : c ∈ n.children) :
    definitionNames k c ⊆ namesBelow k n :=
  fun _ hname => List.mem_flatMap.mpr ⟨c, h, hname⟩

theorem namesAhead_branchTasks (k : ScopeKind) (n : Node) :
    namesAhead k (branchTasks n) ⊆ namesBelow k n := by
  unfold branchTasks
  rw [namesAhead_append]
  refine List.append_subset.mpr ⟨?_, ?_⟩
  · split
    · exact List.nil_subset _
    · next c hc => simpa [namesAhead, Task.names] using subset_namesBelow k (Tree.mem_of_child? hc)
  · split
    · exact List.nil_subset _
    · next c hc => simpa [namesAhead, Task.names] using subset_namesBelow k (Tree.mem_of_child? hc)

theorem namesAhead_alternatives (k : ScopeKind) (cs : List Node) :
    namesAhead k (cs.flatMap alternativeTasks) ⊆ cs.flatMap (definitionNames k) := by
  have hone : ∀ c, namesAhead k (alternativeTasks c) ⊆ definitionNames k c := by
    intro c
    unfold alternativeTasks
    split
    · simp [namesAhead, Task.names]
    · rw [visits_eq_marked, namesAhead_marked]
      exact namesBelow_subset k c
    · exact List.nil_subset _
  intro name hname
  obtain ⟨t, ht, hname⟩ := List.mem_flatMap.mp hname
  obtain ⟨c, hc, ht⟩ := List.mem_flatMap.mp ht
  exact List.mem_flatMap.mpr ⟨c, hc, hone c (List.mem_flatMap.mpr ⟨t, ht, hname⟩)⟩

/-- A visit schedules tasks that have to do with what is below the node. -/
theorem namesAhead_visit (k : ScopeKind) (w : Walker) (n : Node) :
    namesAhead k (visit w n).2 ⊆ namesBelow k n := by
  have hmarked : ∀ i, namesAhead k (marked i n.children) = namesBelow k n :=
    fun i => namesAhead_marked k i n.children
  have hascends : ∀ i, namesAhead k (List.replicate i .ascend) = [] := by
    intro i
    induction i with
    | zero => rfl
    | succ i ih => exact ih
  unfold visit
  cases n.kind
  case ifStatement =>
    simp only [namesAhead_append, hascends, List.append_nil]
    exact List.append_subset.mpr ⟨namesAhead_branchTasks k n, namesAhead_alternatives k _⟩
  all_goals
    simp only [visits_eq_marked, visitsIn_eq_marked, visitsNamed_eq_marked, namesAhead_append,
      hmarked]
    simp [namesAhead, Task.names]

theorem namesAhead_step (k : ScopeKind) (w : Walker) (t : Task) :
    namesAhead k (step w t).2 ⊆ t.names k := by
  cases t with
  | visit n => exact List.Subset.trans (namesAhead_visit k w n) (namesBelow_subset k n)
  | elif n => exact List.Subset.trans (namesAhead_branchTasks k n) (namesBelow_subset k n)
  | condition n => simp [step, namesAhead, Task.names]
  | endCondition => exact List.nil_subset _
  | ascend => exact List.nil_subset _
  | closeMethod => exact List.nil_subset _
  | closeClass => exact List.nil_subset _

/-- The name under which an act opens a scope. -/
def Act.opens? (k : ScopeKind) : Act → Option String
  | .openMethod name => if k = .methods then some name else none
  | .openClass name => if k = .classes then some name else none
  | _ => none

theorem opens?_act? (k : ScopeKind) (w : Walker) (t : Task) :
    ((act? w t).bind (Act.opens? k)).toList ⊆ t.names k := by
  cases t with
  | visit n =>
      show ((visitAct? w n).bind (Act.opens? k)).toList ⊆ definitionNames k n
      rw [definitionNames_eq]
      unfold visitAct?
      cases hk : n.kind
      case booleanOperator => by_cases h : w.inCondition = 0 <;> simp [h, Act.opens?]
      all_goals cases k <;> simp [Act.opens?, ScopeKind.definition]
  | elif n => exact List.nil_subset _
  | condition n => exact List.nil_subset _
  | endCondition => exact List.nil_subset _
  | ascend => exact List.nil_subset _
  | closeMethod => exact List.nil_subset _
  | closeClass => exact List.nil_subset _

/-- A run opens scopes of the names that are ahead of it, and no others. -/
theorem opens?_acts (k : ScopeKind) (ts : List Task) (w : Walker) :
    (acts ts w).filterMap (Act.opens? k) ⊆ namesAhead k ts := by
  induction ts, w using run.induct with
  | case1 w => simp
  | case2 t ts w ih =>
      have hfirst : (act? w t).toList.filterMap (Act.opens? k) =
          ((act? w t).bind (Act.opens? k)).toList := by
        cases act? w t with
        | none => rfl
        | some a => cases ha : a.opens? k <;> simp [ha]
      rw [acts_cons, List.filterMap_append, hfirst]
      rw [namesAhead_append] at ih
      refine List.append_subset.mpr ⟨?_, List.Subset.trans ih (List.append_subset.mpr ⟨?_, ?_⟩)⟩
      · exact List.Subset.trans (opens?_act? k w t) (List.subset_append_left _ _)
      · exact List.Subset.trans (namesAhead_step k w t) (List.subset_append_left _ _)
      · exact List.subset_append_right _ _

/-- The names of all scopes of a docket, open or closed. -/
def Docket.names (d : Docket) : List String := Walk.names d.pending ++ Walk.names d.closed

theorem Docket.names_charge (d : Docket) (x : ScopeScore) : (d.charge x).names = d.names := by
  have hpending : Walk.names (Walker.onInnermost (gain x) d.pending) = Walk.names d.pending := by
    cases d.pending <;> rfl
  exact congrArg (· ++ Walk.names d.closed) hpending

theorem Docket.names_closes (d : Docket) : d.closes.names ⊆ d.names := by
  unfold Docket.closes
  split
  · exact List.Subset.refl _
  · next s ss hs =>
      intro name hname
      simp only [Docket.names, Walk.names, hs, List.map_append, List.map_cons, List.map_nil,
        List.mem_append, List.mem_cons, List.not_mem_nil, or_false] at hname ⊢
      tauto

theorem Docket.names_perform (k : ScopeKind) (d : Docket) (a : Act) :
    (d.perform k a).names ⊆ (a.opens? k).toList ++ d.names := by
  have hcharge : ∀ x, (d.charge x).names ⊆ d.names := by
    intro x
    rw [d.names_charge x]
    exact List.Subset.refl _
  cases a with
  | score r => exact hcharge _
  | path inMethod =>
      rw [Docket.perform]
      split
      · exact hcharge _
      · exact List.Subset.refl _
  | openMethod name =>
      rw [Docket.perform, Act.opens?]
      split <;> exact List.Subset.refl _
  | openClass name =>
      rw [Docket.perform, Act.opens?]
      split <;> exact List.Subset.refl _
  | closeMethod =>
      rw [Docket.perform]
      split
      · exact d.names_closes
      · exact List.Subset.refl _
  | closeClass =>
      rw [Docket.perform]
      split
      · exact d.names_closes
      · exact List.Subset.refl _

theorem Docket.names_run (k : ScopeKind) (as : List Act) (d : Docket) :
    (as.foldl (Docket.perform k) d).names ⊆ as.filterMap (Act.opens? k) ++ d.names := by
  induction as generalizing d with
  | nil => exact List.Subset.refl _
  | cons a as ih =>
      intro name hname
      rw [List.foldl_cons] at hname
      rcases List.mem_append.mp (ih _ hname) with hname | hname
      · exact List.mem_append_left _ (List.filterMap_subset _ (List.subset_cons_self _ _) hname)
      · rcases List.mem_append.mp (d.names_perform k a hname) with hname | hname
        · refine List.mem_append_left _ (List.mem_filterMap.mpr ⟨a, List.mem_cons_self, ?_⟩)
          exact Option.mem_toList.mp hname
        · exact List.mem_append_right _ hname

/-- Every scope of a breakdown has the name of a definition in the tree, whatever the tree. -/
theorem keys_stored_subset (k : ScopeKind) (n : Node) :
    (k.stored (breakdown n)).keys ⊆ definitionNames k n := by
  intro name hname
  have hrecords := (records_initial k).run (acts [.visit n] .initial)
  rw [breakdown_result, ← hrecords.byName] at hname
  obtain ⟨e, he, rfl⟩ := List.mem_map.mp hname
  obtain ⟨s, hs, rfl⟩ := List.mem_map.mp (SortedMap.mem_of_mem_ofList he)
  have hnames := Docket.names_run k (acts [.visit n] .initial) ⟨[], []⟩
    (List.mem_append_right _ (List.mem_map_of_mem hs))
  rw [show Docket.names ⟨[], []⟩ = [] from rfl, List.append_nil] at hnames
  simpa [namesAhead, Task.names] using opens?_acts k [.visit n] .initial hnames

/-! ### Statements in another order -/

theorem ofStatements_cons (c : Node) (cs : List Node) :
    ofStatements (c :: cs) = (ofStatements [c]).merge (ofStatements cs) :=
  ofStatements_append [c] cs

theorem ofStatements_pair (c d : Node) (cs : List Node) : ofStatements (c :: d :: cs) =
    ((ofStatements [c]).merge (ofStatements [d])).merge (ofStatements cs) := by
  rw [← ofStatements_append, ← ofStatements_append]
  rfl

theorem alike_of_perm {cs ds : List Node} (h : cs.Perm ds) :
    (ofStatements cs).Alike (ofStatements ds) := by
  induction h with
  | nil => exact .refl _
  | @cons c cs ds _ ih =>
      rw [ofStatements_cons c cs, ofStatements_cons c ds]
      exact (Breakdown.Alike.refl _).merge ih
  | swap c d cs =>
      rw [ofStatements_pair, ofStatements_pair]
      exact (Breakdown.Alike.merge_comm _ _).merge (.refl _)
  | trans _ _ ih ih' => exact ih.trans ih'

theorem stored_merge (k : ScopeKind) (b c : Breakdown) :
    k.stored (b.merge c) = (k.stored b).unionWith (fun _ later => later) (k.stored c) := by
  cases k <;> rfl

/-- A statement on its own stores no scope but under the name of a definition in it. -/
theorem mem_names_of_stored {k : ScopeKind} {c : Node} {name : String} {x : ScopeScore}
    (h : (k.stored (ofStatements [c])).get? name = some x) : name ∈ definitionNames k c := by
  have hkeys : name ∈ (k.stored (breakdown (.node .phrase none 0 "" [c]))).keys := by
    rw [breakdown_of_phrase rfl, SortedMap.mem_keys]
    exact Option.isSome_iff_exists.mpr ⟨x, h⟩
  have hnames := keys_stored_subset k _ hkeys
  have hphrase : (Tree.node Kind.phrase none 0 "" [c] : Node).kind ≠ k.definition := by
    cases k <;> exact Kind.noConfusion
  rw [definitionNames_eq, if_neg hphrase] at hnames
  simpa [namesBelow, Tree.children] using hnames

theorem stored_of_perm {k : ScopeKind} {cs ds : List Node} (h : cs.Perm ds)
    (hnames : cs.Pairwise fun c d => (definitionNames k c).Disjoint (definitionNames k d)) :
    k.stored (ofStatements cs) = k.stored (ofStatements ds) := by
  induction h with
  | nil => rfl
  | @cons c cs ds _ ih =>
      rw [ofStatements_cons c cs, ofStatements_cons c ds, stored_merge, stored_merge,
        ih (List.pairwise_cons.mp hnames).2]
  | swap c d cs =>
      have hdisjoint := (List.pairwise_cons.mp hnames).1 c List.mem_cons_self
      have hcomm := SortedMap.unionWith_comm (f := fun _ later => later)
        (m := k.stored (ofStatements [d])) (n := k.stored (ofStatements [c]))
        fun name x y hx hy =>
          absurd (mem_names_of_stored hy) (hdisjoint (mem_names_of_stored hx))
      rw [ofStatements_pair, ofStatements_pair, stored_merge, stored_merge, stored_merge,
        stored_merge, hcomm]
  | trans h _ ih ih' =>
      rw [ih hnames, ih' ((h.pairwise_iff List.disjoint_symm).mp hnames)]

/-- No two definitions of a module have one name, so that no two of its statements share one. -/
theorem pairwise_of_nodup {k : ScopeKind} {n : Node} (h : (definitionNames k n).Nodup) :
    n.children.Pairwise fun c d => (definitionNames k c).Disjoint (definitionNames k d) := by
  have hbelow : (n.children.flatMap (definitionNames k)).Nodup := by
    rw [definitionNames_eq] at h
    exact h.of_append_right
  exact (List.nodup_flatMap.mp hbelow).2

/-- **A module is merged from its statements.**  The breakdown of a module whose statements are
those of two others, one after the other, is the breakdowns of these merged.  A module with the same
statements in another order has the same totals, the same line scores and the same statistics but
for the lists of levels, and also the same methods and the same classes if no two of its functions,
or classes, have one name. -/
theorem modules_merged {m m₁ m₂ : Node} (h : m.kind = .phrase) (h₁ : m₁.kind = .phrase)
    (h₂ : m₂.kind = .phrase) (hchildren : m.children = m₁.children ++ m₂.children) :
    breakdown m = (breakdown m₁).merge (breakdown m₂) ∧
    ∀ n : Node, n.kind = .phrase → m.children.Perm n.children →
      (breakdown m).Alike (breakdown n) ∧
      ((definitionNames .methods m).Nodup → (breakdown m).methods = (breakdown n).methods) ∧
      ((definitionNames .classes m).Nodup → (breakdown m).classes = (breakdown n).classes) := by
  rw [breakdown_of_phrase h, breakdown_of_phrase h₁, breakdown_of_phrase h₂]
  refine ⟨by rw [hchildren, ofStatements_append], ?_⟩
  intro n hn hperm
  rw [breakdown_of_phrase hn]
  refine ⟨alike_of_perm hperm, fun hnames => ?_, fun hnames => ?_⟩
  · exact stored_of_perm (k := .methods) hperm (pairwise_of_nodup hnames)
  · exact stored_of_perm (k := .classes) hperm (pairwise_of_nodup hnames)

/-- A loop in a function and an `if` statement that starts on its row, in both orders. -/
theorem modules_merged_sample :
    let function : Node := .node .functionDefinition none 0 "" [
      .node .identifier (some .name) 0 "f" [],
      .node .phrase (some .body) 1 "" [.node .forStatement none 1 "" []]]
    let branch : Node := .node .ifStatement none 1 "" [
      .node .booleanOperator (some .condition) 1 "" [],
      .node .phrase (some .consequence) 2 "" [.node .whileStatement none 2 "" []]]
    let module (cs : List Node) : Node := .node .phrase none 0 "" cs
    let b := breakdown (module [function, branch])
    let c := breakdown (module [branch, function])
    b = (breakdown (module [function])).merge (breakdown (module [branch])) ∧
    b.Alike c ∧ b.methods = c.methods ∧ b.classes = c.classes ∧
    b.dc = 14 ∧ b.cc = 4 ∧ b.lineScores.entries = [(2, 8), (3, 6)] ∧
    b.methods.entries = [("f", ⟨2, 2⟩)] := by
  intro function branch module b c
  obtain ⟨hmerge, horder⟩ := @modules_merged (module [function, branch]) (module [function])
    (module [branch]) rfl rfl rfl rfl
  obtain ⟨halike, hmethods, hclasses⟩ :=
    horder (module [branch, function]) rfl (List.Perm.swap _ _ _)
  have hb : b = (traverse (module [function, branch]) .initial).result := by
    rw [← run_root, ← breakdown_eq]
  refine ⟨hmerge, halike, hmethods (by decide), hclasses (by decide), ?_⟩
  rw [hb]
  decide +kernel

end DecisionScore.Python.Walk
