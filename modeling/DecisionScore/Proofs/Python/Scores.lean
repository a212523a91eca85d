import DecisionScore.Proofs.SortedMap
import DecisionScore.Proofs.Python.Parsed
import DecisionScore.Proofs.Python.Tour

/-! # The scores of a tree

The walk of a shaped tree scores every construct once, in document order and at the level of its
site (`scored_root`).  What the breakdown says of the whole tree is then a sum over its sites: the
decisional complexity (`dc_breakdown`), that of every line, the levels of every kind of construct,
and the cyclomatic complexity (`cc_breakdown`). -/

namespace DecisionScore.Python.Walk

/-! ### The statistics of a kind -/

/-- How often a kind occurs and at which depths. -/
def occurrences (s : Structures) (k : Construct) : Option (Nat × List Nat) :=
  (s.get? k).map fun r => (r.count, r.nestingLevels)

/-- One more occurrence. -/
def occurrence (o : Option (Nat × List Nat)) (depth : Nat) : Nat × List Nat :=
  match o with
  | none => (1, [depth])
  | some (count, levels) => (count + 1, levels ++ [depth])

theorem occurrences_record (s : Structures) (kind k : Construct) (depth : Nat) :
    occurrences (s.record kind depth) k =
      if kind = k then some (occurrence (occurrences s k) depth) else occurrences s k := by
  unfold occurrences Structures.record
  rw [SortedMap.get?_upsert]
  by_cases h : kind = k
  · subst h
    rw [if_pos rfl, if_pos rfl]
    cases s.get? kind <;> rfl
  · rw [if_neg h, if_neg (Ne.symm h)]

/-- What is noted of a kind that has occurred does not change its occurrences. -/
theorem occurrences_noteNested {s : Structures} {kind : Construct}
    (h : (s.get? kind).isSome = true) (depth : Nat) (child k : Construct) :
    occurrences (s.noteNested kind depth child) k = occurrences s k := by
  unfold occurrences Structures.noteNested
  rw [SortedMap.get?_upsert]
  by_cases hk : k = kind
  · subst hk
    obtain ⟨r, hr⟩ := Option.isSome_iff_exists.mp h
    rw [if_pos rfl, hr]
    rfl
  · rw [if_neg hk]

theorem occurrences_noteAll {kind : Construct} (depth : Nat) (found : List Construct)
    (k : Construct) (s : Structures) (h : (s.get? kind).isSome = true) :
    occurrences (found.foldl (fun s child => s.noteNested kind depth child) s) k =
      occurrences s k := by
  induction found generalizing s with
  | nil => rfl
  | cons c found ih =>
      have hnext : ((s.noteNested kind depth c).get? kind).isSome = true := by
        unfold Structures.noteNested
        rw [SortedMap.get?_upsert, if_pos rfl]
        rfl
      rw [List.foldl_cons, ih _ hnext, occurrences_noteNested h]

theorem occurrences_addTo (r : Registration) (b : Breakdown) (k : Construct) :
    occurrences (r.addTo b).structures k = if r.kind = k then
      some (occurrence (occurrences b.structures k) r.depth) else occurrences b.structures k := by
  have hsome : ((b.structures.record r.kind r.depth).get? r.kind).isSome = true := by
    unfold Structures.record
    rw [SortedMap.get?_upsert, if_pos rfl]
    rfl
  rw [r.addTo_eq]
  exact (occurrences_noteAll _ _ _ _ hsome).trans (occurrences_record _ _ _ _)

theorem foldl_occurrence (ls : List Nat) :
    ls.foldl (fun o depth => some (occurrence o depth)) none =
      if ls = [] then none else some (ls.length, ls) := by
  have hsome : ∀ (ls ms : List Nat) (count : Nat),
      ls.foldl (fun o depth => some (occurrence o depth)) (some (count, ms)) =
        some (count + ls.length, ms ++ ls) := by
    intro ls
    induction ls with
    | nil => simp
    | cons l ls ih =>
        intro ms count
        rw [List.foldl_cons, occurrence, ih]
        simp [Nat.add_comm 1, Nat.add_assoc]
  cases ls with
  | nil => rfl
  | cons l ls =>
      rw [List.foldl_cons, occurrence, hsome]
      simp [Nat.add_comm]

end DecisionScore.Python.Walk

namespace DecisionScore.Python

open Walk

/-! ### What the sites add up to -/

theorem Site.filterMap_enterActs (p : Site) :
    p.enterActs.filterMap Act.registration? = p.registration?.toList := by
  unfold enterActs registration?
  cases p.node.kind
  case booleanOperator => cases p.isFree <;> rfl
  all_goals rfl

theorem Site.filterMap_leaveActs (p : Site) : p.leaveActs.filterMap Act.registration? = [] := by
  unfold leaveActs
  cases p.node.kind <;> rfl

/-- The constructs that a tour scores are those of the sites it enters. -/
theorem filterMap_visits (vs : List Visit) : (vs.flatMap Visit.acts).filterMap Act.registration? =
    (vs.filterMap Visit.entered?).filterMap Site.registration? := by
  induction vs with
  | nil => rfl
  | cons v vs ih =>
      rw [List.flatMap_cons, List.filterMap_append, ih]
      cases v with
      | enter p =>
          rw [Visit.acts, p.filterMap_enterActs, Visit.filterMap_entered?_enter,
            List.filterMap_cons]
          cases p.registration? <;> rfl
      | leave p => rw [Visit.acts, p.filterMap_leaveActs, Visit.filterMap_entered?_leave]; rfl

theorem Site.countP_enterActs (p : Site) : p.enterActs.countP Act.addsPath =
    (if p.isConstruct then 1 else 0) + if p.isFreeOperator then 1 else 0 := by
  unfold enterActs registration? isConstruct isFreeOperator
  cases p.node.kind
  case booleanOperator => cases p.isFree <;> rfl
  all_goals rfl

theorem Site.countP_leaveActs (p : Site) : p.leaveActs.countP Act.addsPath = 0 := by
  unfold leaveActs
  cases p.node.kind <;> rfl

/-- The paths that a tour adds are those of the sites it enters. -/
theorem countP_visits (vs : List Visit) : (vs.flatMap Visit.acts).countP Act.addsPath =
    (vs.filterMap Visit.entered?).countP Site.isConstruct +
      (vs.filterMap Visit.entered?).countP Site.isFreeOperator := by
  induction vs with
  | nil => rfl
  | cons v vs ih =>
      rw [List.flatMap_cons, List.countP_append, ih]
      cases v with
      | enter p =>
          rw [Visit.acts, p.countP_enterActs, Visit.filterMap_entered?_enter, List.countP_cons,
            List.countP_cons]
          omega
      | leave p => rw [Visit.acts, p.countP_leaveActs, Visit.filterMap_entered?_leave, Nat.zero_add]

/-- **The walk of a shaped tree scores its constructs**, each once and in document order. -/
theorem scored_root {t : Node} (h : Shaped t) :
    scored [.visit t] .initial = (sites t).filterMap Site.registration? := by
  unfold scored
  rw [acts_root h, filterMap_visits]
  rfl

/-- A part of the breakdown of a shaped tree that only constructs change. -/
theorem breakdown_part {β : Type*} (part : Breakdown → β) (f : β → Registration → β)
    (hscore : ∀ b r, part (r.addTo b) = f (part b) r)
    (hpath : ∀ b n, part (b.addPaths n) = part b)
    (hmethod : ∀ b s, part (b.closeMethod s) = part b)
    (hclass : ∀ b s, part (b.closeClass s) = part b) {t : Node} (h : Shaped t) :
    part (breakdown t) = ((sites t).filterMap Site.registration?).foldl f (part .baseline) := by
  rw [breakdown_result, foldl_perform part f hscore hpath hmethod hclass, ← scored_root h]
  rfl

/-! ### The constructs of a tree -/

/-- The constructs of a tree, in document order. -/
def constructSites (t : Node) : List Site := (sites t).filter Site.isConstruct

/-- The constructs that start on a line. -/
def constructsOn (t : Node) (line : Nat) : List Site :=
  (constructSites t).filter fun p => p.node.row + 1 = line

/-- The levels of the constructs of one kind. -/
def levelsOfKind (t : Node) (k : Construct) : List Nat :=
  ((constructSites t).filter fun p => p.node.kind.construct? = some k).map Site.level

/-- What the sites with a construct have in common with the constructs as they are scored. -/
theorem map_registrations {β : Type*} {q : Registration → Bool} {f : Registration → β}
    {q' : Site → Bool} {f' : Site → β}
    (hq : ∀ p r, Site.registration? p = some r → q r = q' p)
    (hf : ∀ p r, Site.registration? p = some r → f r = f' p) (ps : List Site) :
    ((ps.filterMap Site.registration?).filter q).map f =
      ((ps.filter Site.isConstruct).filter q').map f' := by
  induction ps with
  | nil => rfl
  | cons p ps ih =>
      have hsome : p.isConstruct = p.registration?.isSome := by
        simp [Site.isConstruct, Site.registration?]
      rw [List.filterMap_cons, List.filter_cons, hsome]
      cases hr : p.registration? with
      | none => exact ih
      | some r =>
          rw [Option.isSome_some, if_pos rfl, List.filter_cons, List.filter_cons, hq p r hr]
          by_cases hqp : q' p = true
          · rw [if_pos hqp, if_pos hqp, List.map_cons, List.map_cons, ih, hf p r hr]
          · rw [if_neg hqp, if_neg hqp, ih]

theorem registration?_eq_some {p : Site} {r : Registration} (h : p.registration? = some r) :
    p.node.kind.construct? = some r.kind ∧ r.node = p.node ∧ r.depth = p.level ∧
      r.condition = condition? p.node := by
  obtain ⟨k, hk, rfl⟩ := Option.map_eq_some_iff.mp h
  exact ⟨hk, rfl, rfl, rfl⟩

theorem dc_eq_contribution {p : Site} {r : Registration} (h : p.registration? = some r) :
    r.dc = p.contribution := by
  obtain ⟨k, hk, rfl⟩ := Option.map_eq_some_iff.mp h
  unfold Site.contribution
  rw [hk]
  rfl

theorem map_dc_scored {t : Node} (h : Shaped t) :
    (scored [.visit t] .initial).map Registration.dc =
      (constructSites t).map Site.contribution := by
  have hall : ∀ p r, Site.registration? p = some r → (fun _ => true) r = (fun _ => true) p :=
    fun _ _ _ => rfl
  have hmap := map_registrations hall (fun _ _ => dc_eq_contribution) (sites t)
  rw [List.filter_true, List.filter_true] at hmap
  rw [scored_root h]
  exact hmap

theorem dc_breakdown {t : Node} (h : Shaped t) :
    (breakdown t).dc = ((constructSites t).map Site.contribution).sum := by
  have hsum : ∀ (rs : List Registration) (n : Nat),
      rs.foldl (fun dc r => dc + r.dc) n = n + (rs.map Registration.dc).sum := by
    intro rs
    induction rs with
    | nil => exact fun n => rfl
    | cons r rs ih =>
        intro n
        rw [List.foldl_cons, ih, List.map_cons, List.sum_cons]
        omega
  have hpart := breakdown_part (·.dc) (fun dc r => dc + r.dc)
    (fun b r => by rw [r.addTo_eq]) (fun _ _ => rfl) (fun _ _ => rfl) (fun _ _ => rfl) h
  rw [hpart, hsum, ← scored_root h, map_dc_scored h]
  exact Nat.zero_add _

theorem cc_breakdown {t : Node} (h : Shaped t) : (breakdown t).cc =
    1 + (sites t).countP Site.isConstruct + (sites t).countP Site.isFreeOperator := by
  rw [breakdown_result, foldl_perform_cc, acts_root h, countP_visits, Nat.add_assoc]
  rfl

theorem lineScores_breakdown {t : Node} (h : Shaped t) (line : Nat) :
    (breakdown t).lineScores.get? line = if constructsOn t line = [] then none
      else some ((constructsOn t line).map Site.contribution).sum := by
  have hsum : ∀ (rs : List Registration) (n : Nat),
      rs.foldl (fun a r => some (a.getD 0 + r.dc)) (some n) =
        some (n + (rs.map Registration.dc).sum) := by
    intro rs
    induction rs with
    | nil => exact fun n => rfl
    | cons r rs ih =>
        intro n
        rw [List.foldl_cons, Option.getD_some, ih, List.map_cons, List.sum_cons, Nat.add_assoc]
  have hpart := breakdown_part (·.lineScores)
    (fun m r => m.upsert r.line fun n => n.getD 0 + r.dc)
    (fun b r => by rw [r.addTo_eq]) (fun _ _ => rfl) (fun _ _ => rfl) (fun _ _ => rfl) h
  have hmap : ((scored [.visit t] .initial).filter fun r => r.line = line).map Registration.dc =
      (constructsOn t line).map Site.contribution := by
    rw [scored_root h]
    refine map_registrations (fun p r hr => ?_) (fun _ _ => dc_eq_contribution) (sites t)
    rw [Registration.line, (registration?_eq_some hr).2.1]
  rw [hpart, SortedMap.get?_foldl_upsert Registration.line, ← scored_root h, ← hmap]
  cases hrs : (scored [.visit t] .initial).filter fun r => r.line = line with
  | nil =>
      have hnil : constructsOn t line = [] := by simpa [hrs] using hmap.symm
      rw [if_pos hnil]
      rfl
  | cons r rs =>
      have hcons : constructsOn t line ≠ [] := by
        intro hnil
        simp [hrs, hnil] at hmap
      rw [if_neg hcons, List.foldl_cons, hsum, List.map_cons, List.sum_cons]
      exact congrArg (fun n => some (n + _)) (Nat.zero_add _)

theorem occurrences_breakdown {t : Node} (h : Shaped t) (k : Construct) :
    occurrences (breakdown t).structures k = if levelsOfKind t k = [] then none
      else some ((levelsOfKind t k).length, levelsOfKind t k) := by
  have hpart := breakdown_part (fun b => occurrences b.structures k)
    (fun o r => if r.kind = k then some (occurrence o r.depth) else o)
    (fun b r => occurrences_addTo r b k) (fun _ _ => rfl) (fun _ _ => rfl) (fun _ _ => rfl) h
  have hmap : (((sites t).filterMap Site.registration?).filter fun r => r.kind = k).map
      Registration.depth = levelsOfKind t k := by
    refine map_registrations (fun p r hr => ?_) (fun p r hr => ?_) (sites t)
    · rw [(registration?_eq_some hr).1]
      simp
    · exact (registration?_eq_some hr).2.2.1
  have hfilter : ∀ (rs : List Registration) (o : Option (Nat × List Nat)),
      rs.foldl (fun o r => if r.kind = k then some (occurrence o r.depth) else o) o =
        ((rs.filter fun r => r.kind = k).map Registration.depth).foldl
          (fun o depth => some (occurrence o depth)) o := by
    intro rs o
    rw [List.foldl_map, List.foldl_filter]
    simp
  rw [hpart, hfilter, hmap]
  exact foldl_occurrence _

end DecisionScore.Python
