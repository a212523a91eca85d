import Mathlib.Algebra.Order.BigOperators.Group.List
import Mathlib.Algebra.Order.Ring.Nat
import Mathlib.Data.List.Induction
import DecisionScore.Proofs.Words

/-! # What operations on a breakdown add up to

A `Posting` is one of the operations that build up a breakdown, and `replay` does a list of them, in
whatever order they come.  What a posting brings is held in words of 64 bits.  A breakdown `Tallies`
with a list of postings if each of its parts says what the list says.  One more posting keeps it so
(`Tallies.post`), and therefore every replay does (`tallies_replay`).

The sums of a replay need not fit in words.  `replayOn` is the replay on a `Machine`, which comes to
the breakdown as far as its totals fit (`onWords_replay`).

The tally leaves little of the order: breakdowns that tally with two orders of the same postings
are equal if the orders agree on the depths of every kind and on which scope of a name comes last
(`Tallies.eq_of_sameBooks`). -/

namespace DecisionScore

/-- A method or class body at its end, with its score in words. -/
structure Frame where
  name : String
  dc : UInt64
  cc : UInt64
deriving DecidableEq

namespace Frame

/-- The score of a frame as numbers. -/
def score (s : Frame) : ScopeScore := ⟨s.dc.toNat, s.cc.toNat⟩

/-- The scope that is closed with a frame. -/
def scope (s : Frame) : Scope := ⟨s.name, s.score⟩

end Frame

/-- An operation on a breakdown. -/
inductive Posting where
  | score (line : Nat) (dc : UInt64)
  | addPaths (paths : UInt64)
  | closeMethod (s : Frame)
  | closeClass (s : Frame)
  | record (kind : Construct) (depth : Nat)
  | noteNested (parent : Construct) (depth : Nat) (child : Construct)
deriving DecidableEq

namespace Posting

/-- Does an operation. -/
def post (b : Breakdown) : Posting → Breakdown
  | score line dc => b.score line dc.toNat
  | addPaths paths => b.addPaths paths.toNat
  | closeMethod s => b.closeMethod s.scope
  | closeClass s => b.closeClass s.scope
  | record kind depth => b.record kind depth
  | noteNested parent depth child => b.noteNested parent depth child

/-- The breakdown that operations build up. -/
def replay (ps : List Posting) : Breakdown := ps.foldl post .baseline

/-- Does an operation on a machine. -/
def postOn (hold : Machine) (b : Breakdown) : Posting → Option Breakdown
  | score line dc => b.scoreOn hold line dc.toNat
  | addPaths paths => b.addPathsOn hold paths.toNat
  | p => some (p.post b)

/-- The breakdown that operations build up on a machine. -/
def replayOn (hold : Machine) (ps : List Posting) : Option Breakdown :=
  ps.foldlM (postOn hold) .baseline

/-! ### What a list of postings says -/

/-- The line and the contribution that are scored. -/
def score? : Posting → Option (Nat × Nat)
  | score line dc => some (line, dc.toNat)
  | _ => none

/-- The paths that are added without a construct. -/
def paths? : Posting → Option Nat
  | addPaths paths => some paths.toNat
  | _ => none

/-- The method that is closed. -/
def method? : Posting → Option Frame
  | closeMethod s => some s
  | _ => none

/-- The class that is closed. -/
def class? : Posting → Option Frame
  | closeClass s => some s
  | _ => none

/-- The depth at which a kind is recorded. -/
def depth? (k : Construct) : Posting → Option Nat
  | record kind depth => if kind = k then some depth else none
  | _ => none

/-- The kind and the depth whose statistics are changed. -/
def place? : Posting → Option (Construct × Nat)
  | record kind depth => some (kind, depth)
  | noteNested parent depth _ => some (parent, depth)
  | _ => none

/-- What is scored, in order. -/
def scores (ps : List Posting) : List (Nat × Nat) := ps.filterMap score?

/-- The contributions scored on a line, in order. -/
def scoresOn (line : Nat) (ps : List Posting) : List Nat :=
  ((scores ps).filter fun e => e.1 = line).map (·.2)

/-- The depths recorded for a kind, in order. -/
def depths (k : Construct) (ps : List Posting) : List Nat := ps.filterMap (depth? k)

/-- The method of a name that is closed last. -/
def lastMethod? (name : String) (ps : List Posting) : Option Frame :=
  ((ps.filterMap method?).filter fun s => s.name = name).getLast?

/-- The class of a name that is closed last. -/
def lastClass? (name : String) (ps : List Posting) : Option Frame :=
  ((ps.filterMap class?).filter fun s => s.name = name).getLast?

/-- The number of times a `child` is noted under a `parent` at a depth. -/
def notes (parent : Construct) (depth : Nat) (child : Construct) (ps : List Posting) : Nat :=
  ps.count (.noteNested parent depth child)

/-- Two lists have the same postings, and agree on the order of what is recorded for each kind and
on which method and which class of a name is closed last. -/
structure SameBooks (ps qs : List Posting) : Prop where
  perm : ps.Perm qs
  depths : ∀ k, Posting.depths k ps = Posting.depths k qs
  methods : ∀ name, lastMethod? name ps = lastMethod? name qs
  classes : ∀ name, lastClass? name ps = lastClass? name qs

section
variable (ps : List Posting) (p : Posting)

theorem exists_append_singleton {P : Posting → Prop} :
    (∃ q ∈ ps ++ [p], P q) ↔ (∃ q ∈ ps, P q) ∨ P p := by
  simp [or_and_right, exists_or]

theorem scores_append : scores (ps ++ [p]) = scores ps ++ p.score?.toList := by
  unfold scores
  rw [List.filterMap_append]
  cases h : p.score? <;> simp [h]

theorem scoresOn_append (line : Nat) : scoresOn line (ps ++ [p]) = scoresOn line ps ++
    ((p.score?.toList.filter fun e => e.1 = line).map (·.2)) := by
  simp [scoresOn, scores_append]

theorem paths_append :
    (ps ++ [p]).filterMap paths? = ps.filterMap paths? ++ p.paths?.toList := by
  rw [List.filterMap_append]
  cases h : p.paths? <;> simp [h]

/-- The last scope of a name after one more that is closed. -/
theorem getLast?_closed (closed? : Posting → Option Frame) (name : String) :
    (((ps ++ [p]).filterMap closed?).filter fun s => s.name = name).getLast? =
      ((closed? p).filter fun s => s.name = name).or
        ((ps.filterMap closed?).filter fun s => s.name = name).getLast? := by
  rw [List.filterMap_append, List.filter_append, List.getLast?_append]
  cases h : closed? p with
  | none => simp [h]
  | some s => by_cases hname : s.name = name <;> simp [h, hname, Option.filter_some]

theorem lastMethod?_append (name : String) : lastMethod? name (ps ++ [p]) =
    (p.method?.filter fun s => s.name = name).or (lastMethod? name ps) :=
  getLast?_closed ps p method? name

theorem lastClass?_append (name : String) : lastClass? name (ps ++ [p]) =
    (p.class?.filter fun s => s.name = name).or (lastClass? name ps) :=
  getLast?_closed ps p class? name

end

end Posting

open Posting (scores scoresOn depths lastMethod? lastClass? notes)

/-! ### Tallies -/

/-- The record of a kind says what a list of postings says of the kind. -/
structure StructureRecord.Tallies (r : StructureRecord) (k : Construct) (ps : List Posting) :
    Prop where
  count : r.count = (depths k ps).length
  levels : r.nestingLevels = depths k ps
  /-- The histogram counts how often each depth is recorded. -/
  histogram : ∀ d, r.levelCounts.get? d =
    if d ∈ depths k ps then some ((depths k ps).count d) else none
  /-- Every depth that is recorded, or noted as that of a parent, has a map of its own. -/
  keys : ∀ d, (r.nestedConditions.get? d).isSome = true ↔ ∃ p ∈ ps, p.place? = some (k, d)
  /-- The map of a depth counts the notes, and has no key without a note. -/
  nested : ∀ d m, r.nestedConditions.get? d = some m → ∀ c, m.get? c =
    if notes k d c ps = 0 then none else some (notes k d c ps)

/-- Statistics say what a list of postings says. -/
structure Structures.Tallies (s : Structures) (ps : List Posting) : Prop where
  /-- A kind has a record if it is recorded or noted as a parent. -/
  recorded : ∀ k, (s.get? k).isSome = true ↔ ∃ p ∈ ps, ∃ d, p.place? = some (k, d)
  record : ∀ k r, s.get? k = some r → r.Tallies k ps

/-- A breakdown says what a list of postings says. -/
structure Breakdown.Tallies (b : Breakdown) (ps : List Posting) : Prop where
  dc : b.dc = ((scores ps).map (·.2)).sum
  cc : b.cc = 1 + (scores ps).length + (ps.filterMap Posting.paths?).sum
  /-- A line that is scored on has the sum of what is scored there, and no other line has a score. -/
  lines : ∀ line, b.lineScores.get? line =
    if scoresOn line ps = [] then none else some (scoresOn line ps).sum
  methods : ∀ name, b.methods.get? name = (lastMethod? name ps).map Frame.score
  classes : ∀ name, b.classes.get? name = (lastClass? name ps).map Frame.score
  structures : b.structures.Tallies ps

/-! ### One more posting on a record -/

namespace StructureRecord

variable {r : StructureRecord} {k : Construct} {ps : List Posting}

/-- Postings that are not on a kind leave it without occurrences. -/
theorem tallies_empty (h : ∀ p ∈ ps, ∀ d, p.place? ≠ some (k, d)) : empty.Tallies k ps := by
  have hdepths : depths k ps = [] := by
    refine List.filterMap_eq_nil_iff.mpr fun p hp => ?_
    cases p with
    | record kind depth =>
        have hk : kind ≠ k := fun hk => h _ hp depth (by rw [hk]; rfl)
        exact if_neg hk
    | _ => rfl
  constructor
  · rw [hdepths]
    rfl
  · rw [hdepths]
    rfl
  · intro d
    rw [hdepths]
    rfl
  · intro d
    refine iff_of_false (by simp [empty]) ?_
    rintro ⟨p, hp, hplace⟩
    exact h p hp d hplace
  · intro d m hm
    cases hm

/-- A posting on something else. -/
theorem Tallies.other (h : r.Tallies k ps) {p : Posting} (hp : ∀ d, p.place? ≠ some (k, d)) :
    r.Tallies k (ps ++ [p]) := by
  have hdepths : depths k (ps ++ [p]) = depths k ps := by
    have hnone : p.depth? k = none := by
      cases p with
      | record kind depth =>
          have hk : kind ≠ k := fun hk => hp depth (by rw [hk]; rfl)
          exact if_neg hk
      | _ => rfl
    simp [depths, hnone]
  have hnotes : ∀ d c, notes k d c (ps ++ [p]) = notes k d c ps := by
    intro d c
    have hne : p ≠ .noteNested k d c := by
      rintro rfl
      exact hp d rfl
    simp [notes, List.count_append, List.count_cons_of_ne hne]
  constructor
  · rw [hdepths, h.count]
  · rw [hdepths, h.levels]
  · intro d
    rw [hdepths, h.histogram]
  · intro d
    rw [h.keys]
    simp [hp d]
  · intro d m hm c
    rw [hnotes, h.nested d m hm]

/-- What is noted at a depth, which is nothing where there is no map. -/
theorem Tallies.get?_nested (h : r.Tallies k ps) (d : Nat) (c : Construct) :
    ((r.nestedConditions.get? d).getD ∅).get? c =
      if notes k d c ps = 0 then none else some (notes k d c ps) := by
  cases hm : r.nestedConditions.get? d with
  | some m => exact h.nested d m hm c
  | none =>
      have hnone : notes k d c ps = 0 := by
        refine List.count_eq_zero.mpr fun hmem => ?_
        have hsome := (h.keys d).mpr ⟨_, hmem, rfl⟩
        simp [hm] at hsome
      rw [if_pos hnone]
      rfl

/-- A posting at a place gives the depth there a map. -/
theorem Tallies.keys_upsert (h : r.Tallies k ps) {p : Posting} {depth : Nat}
    (hp : p.place? = some (k, depth))
    (f : Option (SortedMap Construct Nat) → SortedMap Construct Nat) (d : Nat) :
    ((r.nestedConditions.upsert depth f).get? d).isSome = true ↔
      ∃ q ∈ ps ++ [p], q.place? = some (k, d) := by
  rw [SortedMap.get?_upsert, Posting.exists_append_singleton, ← h.keys, hp]
  by_cases hd : d = depth
  · simp [hd]
  · simp [hd, Ne.symm hd]

theorem Tallies.record (h : r.Tallies k ps) (depth : Nat) :
    (r.record depth).Tallies k (ps ++ [.record k depth]) := by
  have hdepths : depths k (ps ++ [.record k depth]) = depths k ps ++ [depth] := by
    simp [depths, Posting.depth?]
  have hnotes : ∀ d c, notes k d c (ps ++ [.record k depth]) = notes k d c ps := by
    simp [notes]
  have hstep : (r.record depth).InStep :=
    InStep.record ⟨by rw [h.count, h.levels], by rw [h.levels]; exact h.histogram⟩ depth
  have hlevels : (r.record depth).nestingLevels = depths k ps ++ [depth] := by
    rw [← h.levels]
    rfl
  constructor
  · rw [hdepths, ← hlevels, hstep.count]
  · rw [hdepths, hlevels]
  · intro d
    rw [hdepths, ← hlevels, hstep.histogram]
  · exact h.keys_upsert rfl _
  · intro d m hm c
    rw [hnotes]
    rw [StructureRecord.record, SortedMap.get?_upsert] at hm
    split at hm
    · next hd =>
        cases hm
        rw [hd]
        exact h.get?_nested depth c
    · exact h.nested d m hm c

theorem Tallies.noteNested (h : r.Tallies k ps) (depth : Nat) (child : Construct) :
    (r.noteNested depth child).Tallies k (ps ++ [.noteNested k depth child]) := by
  have hdepths : depths k (ps ++ [.noteNested k depth child]) = depths k ps := by
    simp [depths, Posting.depth?]
  have hnotes : ∀ d c, notes k d c (ps ++ [.noteNested k depth child]) =
      notes k d c ps + if depth = d ∧ child = c then 1 else 0 := by
    intro d c
    simp [notes, List.count_append, List.count_singleton]
  constructor
  · rw [hdepths]
    exact h.count
  · rw [hdepths]
    exact h.levels
  · intro d
    rw [hdepths]
    exact h.histogram d
  · exact h.keys_upsert rfl _
  · intro d m hm c
    rw [StructureRecord.noteNested, SortedMap.get?_upsert] at hm
    rw [hnotes]
    split at hm
    · next hd =>
        cases hm
        subst hd
        rw [SortedMap.get?_upsert, h.get?_nested, h.get?_nested]
        by_cases hc : c = child
        · subst hc
          by_cases hzero : notes k d c ps = 0
          · simp [hzero, bump]
          · simp [hzero, bump]
        · simp [hc, Ne.symm hc]
    · next hd =>
        rw [h.nested d m hm c]
        simp [Ne.symm hd]

end StructureRecord

/-! ### One more posting -/

namespace Structures.Tallies

variable {s : Structures} {ps : List Posting}

/-- The record that is changed, which is a new one where there is none. -/
theorem getD (h : s.Tallies ps) (k : Construct) : ((s.get? k).getD .empty).Tallies k ps := by
  cases hk : s.get? k with
  | some r => exact h.record k r hk
  | none =>
      refine StructureRecord.tallies_empty fun p hp d hplace => ?_
      have hsome := (h.recorded k).mpr ⟨p, hp, d, hplace⟩
      simp [hk] at hsome

theorem other (h : s.Tallies ps) {p : Posting} (hp : p.place? = none) : s.Tallies (ps ++ [p]) where
  recorded k := by
    rw [h.recorded, Posting.exists_append_singleton]
    simp [hp]
  record k r hr := (h.record k r hr).other (by simp [hp])

/-- A posting that changes the record of one kind. -/
theorem upsert (h : s.Tallies ps) {p : Posting} {kind : Construct} {depth : Nat}
    (hp : p.place? = some (kind, depth)) {f : StructureRecord → StructureRecord}
    (hf : (f ((s.get? kind).getD .empty)).Tallies kind (ps ++ [p])) :
    Structures.Tallies (SortedMap.upsert s kind fun r => f (r.getD .empty)) (ps ++ [p]) where
  recorded k := by
    rw [SortedMap.get?_upsert, Posting.exists_append_singleton, ← h.recorded]
    by_cases hk : k = kind
    · simp [hk, hp]
    · simp [hk, Ne.symm hk, hp]
  record k r hr := by
    rw [SortedMap.get?_upsert] at hr
    by_cases hk : k = kind
    · subst hk
      rw [if_pos rfl] at hr
      cases hr
      exact hf
    · rw [if_neg hk] at hr
      exact (h.record k r hr).other (by simp [hp, Ne.symm hk])

end Structures.Tallies

namespace Breakdown

theorem tallies_baseline : baseline.Tallies [] where
  dc := rfl
  cc := rfl
  lines _ := rfl
  methods _ := rfl
  classes _ := rfl
  structures := ⟨fun _ => by simp [baseline], fun _ _ h => by cases h⟩

/-- One more scope in a map of closed scopes. -/
theorem get?_insert_score {scopes : SortedMap String ScopeScore} {name : String} {last : Option Frame}
    (h : scopes.get? name = last.map Frame.score) (s : Frame) :
    (scopes.insert s.name s.score).get? name =
      (((some s).filter fun s => s.name = name).or last).map Frame.score := by
  rw [SortedMap.insert, SortedMap.get?_upsert]
  by_cases hname : s.name = name
  · simp [hname, Option.filter_some]
  · simp [hname, Ne.symm hname, h, Option.filter_some]

/-- The scores of the lines after one more. -/
theorem Tallies.get?_score {b : Breakdown} {ps : List Posting} (h : b.Tallies ps) (l : Nat)
    (dc : UInt64) (line : Nat) : (b.score l dc.toNat).lineScores.get? line =
      if scoresOn line (ps ++ [.score l dc]) = [] then none
      else some (scoresOn line (ps ++ [.score l dc])).sum := by
  have hline := h.lines line
  rw [score, SortedMap.get?_upsert, Posting.scoresOn_append]
  by_cases hl : line = l
  · subst hl
    rw [if_pos rfl, hline]
    by_cases hnil : scoresOn line ps = []
    · simp [hnil, Posting.score?]
    · simp [hnil, Posting.score?]
  · rw [if_neg hl, hline]
    simp [Posting.score?, Ne.symm hl]

/-- **One posting.** -/
theorem Tallies.post {b : Breakdown} {ps : List Posting} (h : b.Tallies ps) (p : Posting) :
    (p.post b).Tallies (ps ++ [p]) where
  dc := by
    rw [Posting.scores_append, List.map_append, List.sum_append, ← h.dc]
    cases p <;> rfl
  cc := by
    have hcc := h.cc
    rw [Posting.scores_append, Posting.paths_append, List.length_append, List.sum_append]
    cases p with
    | score line dc =>
        show b.cc + 1 = 1 + ((scores ps).length + 1) + (_ + 0)
        omega
    | addPaths paths =>
        show b.cc + paths.toNat = 1 + ((scores ps).length + 0) + (_ + (paths.toNat + 0))
        omega
    | _ => exact hcc
  lines line := by
    cases p with
    | score l dc => exact h.get?_score l dc line
    | _ =>
        rw [Posting.scoresOn_append]
        simp only [Posting.score?, Option.toList_none, List.filter_nil, List.map_nil,
          List.append_nil]
        exact h.lines line
  methods name := by
    rw [Posting.lastMethod?_append]
    cases p with
    | closeMethod s => exact get?_insert_score (h.methods name) s
    | _ => exact h.methods name
  classes name := by
    rw [Posting.lastClass?_append]
    cases p with
    | closeClass s => exact get?_insert_score (h.classes name) s
    | _ => exact h.classes name
  structures := by
    cases p with
    | record kind depth =>
        exact h.structures.upsert (f := fun r => r.record depth) rfl
          ((h.structures.getD kind).record depth)
    | noteNested parent depth child =>
        exact h.structures.upsert (f := fun r => r.noteNested depth child) rfl
          ((h.structures.getD parent).noteNested depth child)
    | _ => exact h.structures.other rfl

end Breakdown

/-- **A whole replay.** -/
theorem tallies_replay (ps : List Posting) : (Posting.replay ps).Tallies ps := by
  induction ps using List.reverseRecOn with
  | nil => exact Breakdown.tallies_baseline
  | append_singleton ps p ih =>
      rw [Posting.replay, List.foldl_append]
      exact ih.post p

/-! ### The order of postings -/

section
variable {ps qs : List Posting} (h : Posting.SameBooks ps qs)
include h

theorem StructureRecord.Tallies.eq_of_sameBooks {r q : StructureRecord} {k : Construct}
    (hr : r.Tallies k ps) (hq : q.Tallies k qs) : r = q := by
  have hcounts : r.levelCounts = q.levelCounts := by
    refine SortedMap.ext_get? fun d => ?_
    rw [hr.histogram, hq.histogram, h.depths]
  have hnested : r.nestedConditions = q.nestedConditions := by
    refine SortedMap.ext_isSome (fun d => ?_) fun d m n hm hn => SortedMap.ext_get? fun c => ?_
    · rw [hr.keys, hq.keys]
      simp only [h.perm.mem_iff]
    · have hnotes : notes k d c ps = notes k d c qs := h.perm.count_eq _
      rw [hr.nested d m hm, hq.nested d n hn, hnotes]
  obtain ⟨count, levels, counts, nested⟩ := r
  obtain rfl : counts = q.levelCounts := hcounts
  obtain rfl : nested = q.nestedConditions := hnested
  obtain rfl : count = q.count := by rw [hq.count, ← h.depths k, ← hr.count]
  obtain rfl : levels = q.nestingLevels := by rw [hq.levels, ← h.depths k, ← hr.levels]
  rfl

theorem Structures.Tallies.eq_of_sameBooks {s t : Structures} (hs : s.Tallies ps)
    (ht : t.Tallies qs) : s = t := by
  refine SortedMap.ext_isSome (fun k => ?_) fun k r q hr hq => ?_
  · rw [hs.recorded, ht.recorded]
    simp only [h.perm.mem_iff]
  · exact (hs.record k r hr).eq_of_sameBooks h (ht.record k q hq)

theorem Breakdown.Tallies.eq_of_sameBooks {b c : Breakdown} (hb : b.Tallies ps)
    (hc : c.Tallies qs) : b = c := by
  have hscores : (scores ps).Perm (scores qs) := h.perm.filterMap _
  have hpaths : (ps.filterMap Posting.paths?).Perm (qs.filterMap Posting.paths?) :=
    h.perm.filterMap _
  have hlines : b.lineScores = c.lineScores := by
    refine SortedMap.ext_get? fun line => ?_
    have hline : (scoresOn line ps).Perm (scoresOn line qs) := (hscores.filter _).map _
    have hnil : scoresOn line ps = [] ↔ scoresOn line qs = [] := by
      rw [← List.perm_nil, ← List.perm_nil]
      exact ⟨hline.symm.trans, hline.trans⟩
    rw [hb.lines, hc.lines, hline.sum_nat]
    simp only [hnil]
  have hmethods : b.methods = c.methods := by
    refine SortedMap.ext_get? fun name => ?_
    rw [hb.methods, hc.methods, h.methods]
  have hclasses : b.classes = c.classes := by
    refine SortedMap.ext_get? fun name => ?_
    rw [hb.classes, hc.classes, h.classes]
  obtain ⟨dc, cc, lines, methods, classes, structures⟩ := b
  obtain rfl : lines = c.lineScores := hlines
  obtain rfl : methods = c.methods := hmethods
  obtain rfl : classes = c.classes := hclasses
  obtain rfl : structures = c.structures := hb.structures.eq_of_sameBooks h hc.structures
  obtain rfl : dc = c.dc := by rw [hc.dc, ← (hscores.map _).sum_nat, ← hb.dc]
  obtain rfl : cc = c.cc := by rw [hc.cc, ← hscores.length_eq, ← hpaths.sum_nat, ← hb.cc]
  rfl

end

/-! ### Replays on words -/

section
variable {ps : List Posting} {b : Breakdown}

theorem Breakdown.Tallies.lineScore_le (h : b.Tallies ps) (line : Nat) :
    b.lineScore line ≤ b.dc := by
  have hsum : (scoresOn line ps).sum ≤ ((scores ps).map (·.2)).sum :=
    (List.filter_sublist.map _).sum_le_sum fun _ _ => Nat.zero_le _
  rw [lineScore, h.lines, h.dc]
  split
  · exact Nat.zero_le _
  · exact hsum

/-- The scores of closed frames are words, whatever becomes of the totals. -/
theorem mapValues_frames {scopes : SortedMap String ScopeScore} {last? : String → Option Frame}
    {image : Nat → Nat} (himage : ∀ w : UInt64, image w.toNat = w.toNat)
    (h : ∀ name, scopes.get? name = (last? name).map Frame.score) :
    scopes.mapValues (ScopeScore.mapScores image) = scopes := by
  refine SortedMap.mapValues_of_eq fun name x hx => ?_
  rw [h name, Option.map_eq_some_iff] at hx
  obtain ⟨s, -, rfl⟩ := hx
  rw [ScopeScore.mapScores, Frame.score, himage, himage]

/-- Where the totals fit in a word, so does every score. -/
theorem Breakdown.Tallies.mapScores_residue (h : b.Tallies ps) (hdc : b.dc < UInt64.size)
    (hcc : b.cc < UInt64.size) : b.mapScores Machine.residue = b := by
  have hwords := Machine.computes_wrapping.image_word
  rw [mapScores, mapValues_lineScores h.lineScore_le hdc, mapValues_frames hwords h.methods,
    mapValues_frames hwords h.classes, Machine.residue_of_lt hdc, Machine.residue_of_lt hcc]

variable {hold : Machine} {image : Nat → Nat} {fits : Nat → Bool} (h : hold.Computes image fits)
include h

theorem Frame.mapScores_scope (s : Frame) : s.scope.mapScores image = s.scope := by
  rw [scope, Scope.mapScores, score, ScopeScore.mapScores, h.image_word, h.image_word]

/-- **One posting.** -/
theorem Posting.postOn_eq (hb : b.Tallies ps) (hfit : b.totalsFit fits = true) (p : Posting) :
    postOn hold (b.mapScores image) p =
      if (p.post b).totalsFit fits = true then some ((p.post b).mapScores image) else none := by
  cases p with
  | score line dc =>
      have hscore := Breakdown.scoreOn_eq h (hb.lineScore_le line) dc.toNat
      rw [h.image_word] at hscore
      exact hscore
  | addPaths paths => exact Breakdown.addPathsOn_eq h (Breakdown.totalsFit_iff.mp hfit).1
  | closeMethod s =>
      have hclose : _ = (b.mapScores image).closeMethod _ := b.mapScores_closeMethod s.scope
      rw [s.mapScores_scope h] at hclose
      exact (congrArg some hclose.symm).trans (if_pos hfit).symm
  | closeClass s =>
      have hclose : _ = (b.mapScores image).closeClass _ := b.mapScores_closeClass s.scope
      rw [s.mapScores_scope h] at hclose
      exact (congrArg some hclose.symm).trans (if_pos hfit).symm
  | record kind depth => exact (if_pos hfit).symm
  | noteNested parent depth child => exact (if_pos hfit).symm

end

namespace Posting

theorem dc_le_post (b : Breakdown) (p : Posting) : b.dc ≤ (p.post b).dc := by
  cases p with
  | score line dc => exact Nat.le_add_right _ _
  | _ => exact Nat.le_refl _

theorem cc_le_post (b : Breakdown) (p : Posting) : b.cc ≤ (p.post b).cc := by
  cases p with
  | score line dc => exact Nat.le_add_right _ _
  | addPaths paths => exact Nat.le_add_right _ _
  | _ => exact Nat.le_refl _

theorem replay_append (ps : List Posting) (p : Posting) :
    replay (ps ++ [p]) = p.post (replay ps) := by
  rw [replay, List.foldl_append]
  rfl

/-- **A whole replay**: the totals only grow. -/
theorem replayOn_eq {hold : Machine} {image : Nat → Nat} {fits : Nat → Bool}
    (h : hold.Computes image fits) (ps : List Posting) : replayOn hold ps =
      if (replay ps).totalsFit fits = true then some ((replay ps).mapScores image) else none := by
  induction ps using List.reverseRecOn with
  | nil => exact Breakdown.some_baseline_eq h
  | append_singleton ps p ih =>
      have hsteps : replayOn hold (ps ++ [p]) =
          (replayOn hold ps).bind fun b => postOn hold b p := by
        simp [replayOn, List.foldlM_append]
      rw [hsteps, ih, replay_append]
      by_cases hfit : (replay ps).totalsFit fits = true
      · rw [if_pos hfit]
        exact postOn_eq h (tallies_replay ps) hfit p
      · rw [if_neg hfit, if_neg]
        · rfl
        · intro hall
          obtain ⟨hdc, hcc⟩ := Breakdown.totalsFit_iff.mp hall
          exact hfit (Breakdown.totalsFit_iff.mpr
            ⟨h.mono (dc_le_post _ p) hdc, h.mono (cc_le_post _ p) hcc⟩)

theorem onWords_replay (ps : List Posting) : OnWords (replayOn · ps) (replay ps) :=
  onWords_of_computes (tallies_replay ps).mapScores_residue fun h => replayOn_eq h ps

end Posting

/-- **The replay law.**  The breakdown that any list of operations builds up, in any order, says
what the list says: the decisional complexity is the sum of what is scored, there is a path for
every score besides those that are added and the first one, a line has the sum of what is scored on
it, and of the scopes of a name the one that is closed last counts.  A kind has a record if it is
recorded or noted as a parent; the record has the recorded depths in order, their histogram, and for
every depth the number of notes of each kind.  On words of 64 bits the operations build up this
breakdown if and only if its totals fit; otherwise they overflow, or leave the residues of the sums.
Two orders of the same operations therefore build up the same breakdown, on words as on numbers, if
they agree on the order of the depths of each kind and on which method and which class of a name
comes last. -/
theorem replay_law (ps : List Posting) : (Posting.replay ps).Tallies ps ∧
    OnWords (Posting.replayOn · ps) (Posting.replay ps) ∧
    ∀ qs, Posting.SameBooks ps qs → Posting.replay ps = Posting.replay qs ∧
      Posting.replayOn .checked ps = Posting.replayOn .checked qs ∧
      Posting.replayOn .wrapping ps = Posting.replayOn .wrapping qs := by
  refine ⟨tallies_replay ps, Posting.onWords_replay ps, fun qs h => ?_⟩
  have hsame : Posting.replay ps = Posting.replay qs :=
    (tallies_replay ps).eq_of_sameBooks h (tallies_replay qs)
  have hps := Posting.onWords_replay ps
  have hqs := Posting.onWords_replay qs
  exact ⟨hsame, by rw [hps.checked, hqs.checked, hsame], by rw [hps.wrapping, hqs.wrapping, hsame]⟩

/-- Two scores on a line whose sum is one more than the largest word. -/
example : Posting.replayOn .checked [.score 1 18446744073709551615, .score 1 1] = none ∧
    (Posting.replayOn .wrapping [.score 1 18446744073709551615, .score 1 1]).map
      (fun b => (b.dc, b.cc, b.lineScores.entries)) = some (0, 3, [(1, 0)]) := by
  decide +kernel

end DecisionScore
