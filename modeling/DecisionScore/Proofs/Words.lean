import Mathlib.Data.Nat.ModEq
import DecisionScore.Proofs.Breakdown

/-! # Scores on machine words

The parts of a computation of scores once more, as programs that say of each addition and
multiplication of scores how its outcome is held.  A `Machine` gives the number it goes on with for
every exact outcome, or stops: `checked` words stop at an overflow, `wrapping` words go on with what
is left of the number (`residue`).

Both are cases of one notion.  A machine that `Computes` goes on with the image of every number that
fits, and images may be added and multiplied in place of the numbers.  For every definition `X` the
theorem `XOn_eq` says what such a machine makes of the image of the exact state: the image of the
next one if its totals fit, and nothing otherwise.  For a whole computation this comes to `OnWords`:
the exact breakdown if its totals fit in a word, and otherwise no breakdown on checked words and the
residues of the exact one on wrapping words. -/

namespace DecisionScore

/-- How a machine holds a number: as the number it goes on with, if it goes on. -/
abbrev Machine := Nat → Option Nat

namespace Machine

/-- A machine that stops at every number above a largest one. -/
def upTo (largest : Nat) : Machine := fun m => if m ≤ largest then some m else none

/-- Words of 64 bits that stop at an overflow. -/
def checked : Machine := upTo (UInt64.size - 1)

/-- Words of 64 bits that wrap around at an overflow. -/
def wrapping : Machine := fun m => some (UInt64.ofNat m).toNat

/-- What is left of a number on a word of 64 bits. -/
def residue (m : Nat) : Nat := (UInt64.ofNat m).toNat

theorem residue_eq (m : Nat) : residue m = m % UInt64.size := UInt64.toNat_ofNat'

theorem residue_of_lt {m : Nat} (h : m < UInt64.size) : residue m = m :=
  UInt64.toNat_ofNat_of_lt' h

/-- A machine that goes on with the image of every number that fits, and stops at the others.  It
does not notice whether it adds to a number or to its image. -/
structure Computes (hold : Machine) (image : Nat → Nat) (fits : Nat → Bool) : Prop where
  hold_eq : ∀ m, hold m = if fits m = true then some (image m) else none
  add : ∀ m n, hold (image m + n) = hold (m + n)
  mul : ∀ m n, hold (image m * n) = hold (m * n)
  /-- A number that fits in a word is its own image. -/
  image_word : ∀ w : UInt64, image w.toNat = w.toNat
  one : fits 1 = true
  mono : ∀ {m n}, m ≤ n → fits n = true → fits m = true

theorem computes_upTo {largest : Nat} (h : 1 ≤ largest) :
    (upTo largest).Computes id fun m => decide (m ≤ largest) where
  hold_eq m := by simp [upTo]
  add _ _ := rfl
  mul _ _ := rfl
  image_word _ := rfl
  one := decide_eq_true h
  mono h hn := decide_eq_true (Nat.le_trans h (of_decide_eq_true hn))

theorem computes_wrapping : wrapping.Computes residue fun _ => true where
  hold_eq m := rfl
  add m n := by
    show some (residue (residue m + n)) = some (residue (m + n))
    simp only [residue_eq, Nat.mod_add_mod]
  mul m n := by
    show some (residue (residue m * n)) = some (residue (m * n))
    simp only [residue_eq, Nat.mod_mul_mod]
  image_word w := residue_of_lt w.toNat_lt
  one := rfl
  mono _ _ := rfl

end Machine

/-! ### Images -/

section
variable (image : Nat → Nat)

/-- The image of what is counted. -/
def TokenWeight.mapCounts (w : TokenWeight) : TokenWeight :=
  ⟨image w.conds, image w.ops, image w.operands⟩

/-- The image of a score. -/
def ScopeScore.mapScores (x : ScopeScore) : ScopeScore := ⟨image x.dc, image x.cc⟩

/-- The image of an open scope. -/
def Scope.mapScores (s : Scope) : Scope := { s with score := s.score.mapScores image }

/-- The image of a breakdown. -/
def Breakdown.mapScores (b : Breakdown) : Breakdown :=
  { b with
    dc := image b.dc
    cc := image b.cc
    lineScores := b.lineScores.mapValues image
    methods := b.methods.mapValues (ScopeScore.mapScores image)
    classes := b.classes.mapValues (ScopeScore.mapScores image) }

end

/-- Whether the totals of a breakdown fit. -/
def Breakdown.totalsFit (fits : Nat → Bool) (b : Breakdown) : Bool := fits b.dc && fits b.cc

/-- No score of a line or a scope is greater than the totals. -/
structure Breakdown.Bounded (b : Breakdown) : Prop where
  lines : ∀ line, b.lineScore line ≤ b.dc
  methods : AllWithin b.methods b
  classes : AllWithin b.classes b

theorem Breakdown.Consistent.bounded {b : Breakdown} (h : b.Consistent) : b.Bounded :=
  ⟨h.lineScore_le, h.methods, h.classes⟩

/-! ### Programs -/

section
variable (hold : Machine)

/-- All that is counted, together. -/
def TokenWeight.totalOn (w : TokenWeight) : Option Nat := do
  let signs ← hold (w.conds + w.ops)
  hold (signs + w.operands)

/-- What one occurrence of `kind` at `depth` adds to the decisional complexity. -/
def contributionOn (kind : Construct) (depth : Nat) (tokens : TokenWeight) : Option Nat := do
  let factor ← hold (effectiveDepth depth * kind.baseWeight)
  let total ← tokens.totalOn hold
  hold (factor * total)

/-- Charges one construct. -/
def Scope.chargeOn (s : Scope) (dc : Nat) : Option Scope := do
  let total ← hold (s.score.dc + dc)
  let paths ← hold (s.score.cc + 1)
  return { s with score := ⟨total, paths⟩ }

/-- Adds paths that belong to no construct. -/
def Scope.addPathsOn (s : Scope) (paths : Nat) : Option Scope := do
  let total ← hold (s.score.cc + paths)
  return { s with score := ⟨s.score.dc, total⟩ }

/-- Scores one construct on a line. -/
def Breakdown.scoreOn (b : Breakdown) (line dc : Nat) : Option Breakdown := do
  let total ← hold (b.dc + dc)
  let paths ← hold (b.cc + 1)
  let entry ← hold (b.lineScore line + dc)
  return { b with dc := total, cc := paths, lineScores := b.lineScores.insert line entry }

/-- Adds paths that belong to no construct. -/
def Breakdown.addPathsOn (b : Breakdown) (paths : Nat) : Option Breakdown := do
  let total ← hold (b.cc + paths)
  return { b with cc := total }

end

/-! ### What the programs compute -/

section
variable {hold : Machine} {image : Nat → Nat} {fits : Nat → Bool}

theorem Breakdown.mapScores_closeMethod (b : Breakdown) (s : Scope) :
    (b.closeMethod s).mapScores image = (b.mapScores image).closeMethod (s.mapScores image) := by
  simp only [mapScores, closeMethod, SortedMap.mapValues_insert]
  rfl

theorem Breakdown.mapScores_closeClass (b : Breakdown) (s : Scope) :
    (b.closeClass s).mapScores image = (b.mapScores image).closeClass (s.mapScores image) := by
  simp only [mapScores, closeClass, SortedMap.mapValues_insert]
  rfl

theorem Breakdown.totalsFit_iff {b : Breakdown} :
    b.totalsFit fits = true ↔ fits b.dc = true ∧ fits b.cc = true := Bool.and_eq_true_iff

variable (h : hold.Computes image fits)
include h

namespace Machine.Computes

theorem image_zero : image 0 = 0 := h.image_word 0

theorem image_one : image 1 = 1 := h.image_word 1

theorem hold_add (m n : Nat) :
    hold (image m + image n) = if fits (m + n) = true then some (image (m + n)) else none := by
  rw [h.add, Nat.add_comm, h.add, Nat.add_comm, h.hold_eq]

theorem hold_mul (m n : Nat) :
    hold (image m * image n) = if fits (m * n) = true then some (image (m * n)) else none := by
  rw [h.mul, Nat.mul_comm, h.mul, Nat.mul_comm, h.hold_eq]

theorem hold_succ (m : Nat) :
    hold (image m + 1) = if fits (m + 1) = true then some (image (m + 1)) else none := by
  rw [h.add, h.hold_eq]

theorem eq_some {m : Nat} (hm : fits m = true) : hold m = some (image m) := by
  rw [h.hold_eq, if_pos hm]

/-- Whatever a machine goes on with is the image. -/
theorem eq_image {m n : Nat} (hm : hold m = some n) : n = image m := by
  rw [h.hold_eq] at hm
  split at hm
  · exact (Option.some.inj hm).symm
  · cases hm

end Machine.Computes

theorem TokenWeight.mapCounts_bare : bare.mapCounts image = bare := by
  rw [bare, mapCounts, h.image_one, h.image_zero]

theorem ScopeScore.mapScores_baseline : baseline.mapScores image = baseline := by
  rw [baseline, mapScores, h.image_one, h.image_zero]

theorem Scope.mapScores_start (name : String) : (start name).mapScores image = start name := by
  rw [start, mapScores, ScopeScore.mapScores_baseline h]

theorem Breakdown.mapScores_baseline : baseline.mapScores image = baseline := by
  simp only [baseline, mapScores, h.image_one, h.image_zero]
  rfl

theorem Breakdown.totalsFit_baseline : baseline.totalsFit fits = true :=
  totalsFit_iff.mpr ⟨h.mono (Nat.zero_le 1) h.one, h.one⟩

theorem Breakdown.some_baseline_eq : some baseline =
    if baseline.totalsFit fits = true then some (baseline.mapScores image) else none := by
  rw [if_pos (totalsFit_baseline h), mapScores_baseline h]

theorem Breakdown.lineScore_mapScores (b : Breakdown) (line : Nat) :
    (b.mapScores image).lineScore line = image (b.lineScore line) := by
  show ((b.lineScores.mapValues image).get? line).getD 0 = image ((b.lineScores.get? line).getD 0)
  rw [SortedMap.get?_mapValues]
  cases b.lineScores.get? line with
  | none => exact h.image_zero.symm
  | some n => rfl

theorem TokenWeight.totalOn_eq (w : TokenWeight) : (w.mapCounts image).totalOn hold =
    if fits w.total = true then some (image w.total) else none := by
  show (hold (image w.conds + image w.ops)).bind (fun signs => hold (signs + image w.operands)) = _
  rw [h.hold_add]
  by_cases hsigns : fits (w.conds + w.ops) = true
  · rw [if_pos hsigns, Option.bind_some, h.hold_add]
    rfl
  · have htotal : ¬ fits w.total = true := fun htotal =>
      hsigns (h.mono (Nat.le_add_right _ _) htotal)
    rw [if_neg hsigns, if_neg htotal, Option.bind_none]

/-- **A contribution**: nothing on the way to it is greater. -/
theorem contributionOn_eq (kind : Construct) (depth : Nat) {w : TokenWeight} (hw : 1 ≤ w.total) :
    contributionOn hold kind depth (w.mapCounts image) =
      if fits (contribution kind depth w) = true then some (image (contribution kind depth w))
      else none := by
  show (hold (effectiveDepth depth * kind.baseWeight)).bind (fun factor =>
    ((w.mapCounts image).totalOn hold).bind fun total => hold (factor * total)) = _
  rw [h.hold_eq, TokenWeight.totalOn_eq h]
  by_cases hfactor : fits (effectiveDepth depth * kind.baseWeight) = true
  · by_cases htotal : fits w.total = true
    · rw [if_pos hfactor, if_pos htotal, Option.bind_some, Option.bind_some, h.hold_mul]
      rfl
    · have hall : ¬ fits (contribution kind depth w) = true := fun hall =>
        htotal (h.mono (total_le_contribution kind depth w) hall)
      rw [if_pos hfactor, if_neg htotal, if_neg hall]
      rfl
  · have hall : ¬ fits (contribution kind depth w) = true := fun hall =>
      hfactor (h.mono (Nat.le_mul_of_pos_right _ hw) hall)
    rw [if_neg hfactor, if_neg hall]
    rfl

theorem Scope.chargeOn_eq {s : Scope} {dc : Nat} (hdc : fits (s.score.dc + dc) = true)
    (hcc : fits (s.score.cc + 1) = true) :
    (s.mapScores image).chargeOn hold (image dc) = some ((s.charge dc).mapScores image) := by
  show (hold (image s.score.dc + image dc)).bind (fun total =>
    (hold (image s.score.cc + 1)).bind fun paths => some (Scope.mk s.name ⟨total, paths⟩)) = _
  rw [h.hold_add, if_pos hdc, h.hold_succ, if_pos hcc]
  rfl

theorem Scope.addPathsOn_eq {s : Scope} {paths : Nat} (hcc : fits (s.score.cc + paths) = true) :
    (s.mapScores image).addPathsOn hold paths = some ((s.addPaths paths).mapScores image) := by
  show (hold (image s.score.cc + paths)).bind (fun total =>
    some (Scope.mk s.name ⟨image s.score.dc, total⟩)) = _
  rw [h.add, h.hold_eq, if_pos hcc]
  rfl

/-- **A score**: the score of a line is not greater than the total. -/
theorem Breakdown.scoreOn_eq {b : Breakdown} {line : Nat} (hline : b.lineScore line ≤ b.dc)
    (dc : Nat) : (b.mapScores image).scoreOn hold line (image dc) =
      if (b.score line dc).totalsFit fits = true then some ((b.score line dc).mapScores image)
      else none := by
  show (hold (image b.dc + image dc)).bind (fun total => (hold (image b.cc + 1)).bind fun paths =>
    (hold ((b.mapScores image).lineScore line + image dc)).bind fun entry =>
      some { b.mapScores image with
        dc := total, cc := paths, lineScores := (b.lineScores.mapValues image).insert line entry }) = _
  rw [Breakdown.lineScore_mapScores h, h.hold_add, h.hold_succ, h.hold_add]
  by_cases hfit : (b.score line dc).totalsFit fits = true
  · have hdc : fits (b.dc + dc) = true := (Breakdown.totalsFit_iff.mp hfit).1
    have hcc : fits (b.cc + 1) = true := (Breakdown.totalsFit_iff.mp hfit).2
    have hentry : fits (b.lineScore line + dc) = true := h.mono (Nat.add_le_add_right hline dc) hdc
    have hlines : (b.lineScores.mapValues image).insert line (image (b.lineScore line + dc)) =
        (b.score line dc).lineScores.mapValues image := by
      rw [← SortedMap.mapValues_insert]
      exact congrArg _ (SortedMap.insert_get? b.lineScores line fun n => n.getD 0 + dc)
    rw [if_pos hfit, if_pos hdc, if_pos hcc, if_pos hentry]
    simp only [Option.bind_some, hlines]
    rfl
  · rw [if_neg hfit]
    by_cases hdc : fits (b.dc + dc) = true
    · have hcc : ¬ fits (b.cc + 1) = true := fun hcc => hfit (Breakdown.totalsFit_iff.mpr ⟨hdc, hcc⟩)
      rw [if_pos hdc, if_neg hcc]
      rfl
    · rw [if_neg hdc]
      rfl

theorem Breakdown.addPathsOn_eq {b : Breakdown} {paths : Nat} (hdc : fits b.dc = true) :
    (b.mapScores image).addPathsOn hold paths =
      if (b.addPaths paths).totalsFit fits = true then some ((b.addPaths paths).mapScores image)
      else none := by
  show (hold (image b.cc + paths)).bind (fun total => some { b.mapScores image with cc := total }) = _
  have hfit : (b.addPaths paths).totalsFit fits = fits (b.cc + paths) := by
    show (fits b.dc && fits (b.cc + paths)) = _
    rw [hdc, Bool.true_and]
  rw [h.add, h.hold_eq, hfit]
  by_cases hcc : fits (b.cc + paths) = true
  · rw [if_pos hcc, if_pos hcc]
    rfl
  · rw [if_neg hcc, if_neg hcc]
    rfl

end

/-! ### Whole computations -/

/-- What becomes of a breakdown on words.  A machine that stops at an overflow comes to it if and
only if its totals fit, and to nothing else; a machine that wraps around comes to what is left of
every score, which is the score itself if the totals fit. -/
structure OnWords (run : Machine → Option Breakdown) (b : Breakdown) : Prop where
  upTo : ∀ largest, 1 ≤ largest →
    run (.upTo largest) = if b.dc ≤ largest ∧ b.cc ≤ largest then some b else none
  checked : run .checked = if b.dc < UInt64.size ∧ b.cc < UInt64.size then some b else none
  wrapping : run .wrapping = some (b.mapScores Machine.residue)
  exact : b.dc < UInt64.size → b.cc < UInt64.size → run .wrapping = some b

/-- Totals that fit in a word are computed exactly. -/
theorem OnWords.of_totals_lt {run : Machine → Option Breakdown} {b : Breakdown} (h : OnWords run b)
    (hfit : b.dc < UInt64.size ∧ b.cc < UInt64.size) :
    run .checked = some b ∧ run .wrapping = some b :=
  ⟨h.checked.trans (if_pos hfit), h.exact hfit.1 hfit.2⟩

theorem Breakdown.mapScores_id (b : Breakdown) : b.mapScores id = b := by
  have hscopes : ∀ m : SortedMap String ScopeScore, m.mapValues (ScopeScore.mapScores id) = m :=
    fun m => SortedMap.mapValues_of_eq fun _ _ _ => rfl
  have hlines : b.lineScores.mapValues id = b.lineScores :=
    SortedMap.mapValues_of_eq fun _ _ _ => rfl
  rw [mapScores, hlines, hscopes, hscopes]
  rfl

theorem mapValues_scopes {scopes : SortedMap String ScopeScore} {b : Breakdown}
    (h : AllWithin scopes b) (hdc : b.dc < UInt64.size) (hcc : b.cc < UInt64.size) :
    scopes.mapValues (ScopeScore.mapScores Machine.residue) = scopes := by
  refine SortedMap.mapValues_of_eq fun name x hx => ?_
  obtain ⟨-, hxcc, hxdc⟩ := h name x hx
  rw [ScopeScore.mapScores, Machine.residue_of_lt (Nat.lt_of_le_of_lt hxdc hdc),
    Machine.residue_of_lt (Nat.lt_of_le_of_lt hxcc hcc)]

theorem mapValues_lineScores {b : Breakdown} (h : ∀ line, b.lineScore line ≤ b.dc)
    (hdc : b.dc < UInt64.size) : b.lineScores.mapValues Machine.residue = b.lineScores := by
  refine SortedMap.mapValues_of_eq fun line n hn => Machine.residue_of_lt ?_
  have hline := h line
  rw [Breakdown.lineScore, hn] at hline
  exact Nat.lt_of_le_of_lt hline hdc

/-- Where the totals fit in a word, so does every score. -/
theorem Breakdown.Bounded.mapScores_residue {b : Breakdown} (h : b.Bounded)
    (hdc : b.dc < UInt64.size) (hcc : b.cc < UInt64.size) :
    b.mapScores Machine.residue = b := by
  rw [mapScores, mapValues_lineScores h.lines hdc, mapValues_scopes h.methods hdc hcc,
    mapValues_scopes h.classes hdc hcc, Machine.residue_of_lt hdc, Machine.residue_of_lt hcc]

/-- A computation that every machine goes through as far as the totals fit. -/
theorem onWords_of_computes {run : Machine → Option Breakdown} {b : Breakdown}
    (hb : b.dc < UInt64.size → b.cc < UInt64.size → b.mapScores Machine.residue = b)
    (h : ∀ {hold : Machine} {image : Nat → Nat} {fits : Nat → Bool}, hold.Computes image fits →
      run hold = if b.totalsFit fits = true then some (b.mapScores image) else none) :
    OnWords run b := by
  have hupTo : ∀ largest, 1 ≤ largest →
      run (.upTo largest) = if b.dc ≤ largest ∧ b.cc ≤ largest then some b else none := by
    intro largest hone
    rw [h (Machine.computes_upTo hone), Breakdown.mapScores_id]
    simp [Breakdown.totalsFit]
  have hwrapping : run .wrapping = some (b.mapScores Machine.residue) :=
    h Machine.computes_wrapping
  refine ⟨hupTo, ?_, hwrapping, fun hdc hcc => ?_⟩
  · have hlt : ∀ m, m ≤ UInt64.size - 1 ↔ m < UInt64.size := fun m =>
      Nat.le_sub_one_iff_lt (by decide)
    rw [Machine.checked, hupTo _ (by decide)]
    simp only [hlt]
  · rw [hwrapping, hb hdc hcc]

/-- A consistent breakdown as it is computed on words.  If words stop at an overflow, then what they
come to is consistent.  If they wrap around, then the scores of the lines, added up on words, are
still the total. -/
structure ConsistentOnWords (run : Machine → Option Breakdown) (b : Breakdown) : Prop where
  exact : b.Consistent
  words : OnWords run b
  checked : ∀ c, run .checked = some c → c.Consistent
  wrapping : ∃ c, run .wrapping = some c ∧ Machine.residue c.lineScores.values.sum = c.dc

theorem OnWords.consistent {run : Machine → Option Breakdown} {b : Breakdown} (h : OnWords run b)
    (hb : b.Consistent) : ConsistentOnWords run b := by
  refine ⟨hb, h, fun c hc => ?_, b.mapScores Machine.residue, h.wrapping, ?_⟩
  · rw [h.checked] at hc
    split at hc
    · exact Option.some.inj hc ▸ hb
    · cases hc
  · show Machine.residue (b.lineScores.mapValues Machine.residue).values.sum = Machine.residue b.dc
    have hresidues : (b.lineScores.values.map Machine.residue).sum % UInt64.size =
        b.lineScores.values.sum % UInt64.size := by
      rw [funext Machine.residue_eq, ← List.sum_nat_mod]
    rw [SortedMap.values_mapValues, Machine.residue_eq, hresidues, hb.lines_sum, Machine.residue_eq]

end DecisionScore
