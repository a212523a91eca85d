import Mathlib.Tactic.MkIffOfInductiveProp
import DecisionScore.Proofs.Json
import DecisionScore.Proofs.SortedMap
import DecisionScore.Wire

/-! # Breakdowns handed on as JSON

What is written of a breakdown is read back as the same breakdown (`parse?_render`), as long as its
numbers are not too large to be read.  Those of a breakdown that was read never are
(`fits_of_parse?`).  Each shape of the wire is a lemma: an object of given fields
(`fields?_object`), and a map, whatever its keys and values are (`toMap?_object`). -/

namespace DecisionScore

open Json (maxNat)

/-! ### Numbers that can be read -/

/-- The numbers of a score can be read. -/
@[mk_iff] structure ScopeScore.Fits (s : ScopeScore) : Prop where
  dc : s.dc ≤ maxNat
  cc : s.cc ≤ maxNat

/-- The numbers of a record can be read, those that are keys included. -/
@[mk_iff] structure StructureRecord.Fits (r : StructureRecord) : Prop where
  count : r.count ≤ maxNat
  levels : ∀ n ∈ r.nestingLevels, n ≤ maxNat
  counts : ∀ e ∈ r.levelCounts.entries, e.1 ≤ maxNat ∧ e.2 ≤ maxNat
  nested : ∀ e ∈ r.nestedConditions.entries, e.1 ≤ maxNat ∧ ∀ d ∈ e.2.entries, d.2 ≤ maxNat

/-- The numbers of a breakdown can be read. -/
@[mk_iff] structure Breakdown.Fits (b : Breakdown) : Prop where
  dc : b.dc ≤ maxNat
  cc : b.cc ≤ maxNat
  lines : ∀ e ∈ b.lineScores.entries, e.1 ≤ maxNat ∧ e.2 ≤ maxNat
  methods : ∀ e ∈ b.methods.entries, e.2.Fits
  classes : ∀ e ∈ b.classes.entries, e.2.Fits
  structures : ∀ e ∈ b.structures.entries, e.2.Fits

instance (s : ScopeScore) : Decidable s.Fits := decidable_of_iff' _ (ScopeScore.fits_iff s)

instance (r : StructureRecord) : Decidable r.Fits :=
  decidable_of_iff' _ (StructureRecord.fits_iff r)

instance (b : Breakdown) : Decidable b.Fits := decidable_of_iff' _ (Breakdown.fits_iff b)

namespace Wire

/-! ### Lists -/

theorem mapM_map_eq_some {α β γ : Type} {f : α → β} {g : α → γ} {read : β → Option γ}
    {l : List α} (h : ∀ a ∈ l, read (f a) = some (g a)) : (l.map f).mapM read = some (l.map g) := by
  induction l with
  | nil => rfl
  | cons a l ih =>
      have hrest := ih fun b hb => h b (List.mem_cons_of_mem a hb)
      simp [List.mapM_cons, h a List.mem_cons_self, hrest]

theorem exists_of_mapM_eq_some {α β : Type} {read : α → Option β} {l : List α} {ms : List β}
    (h : l.mapM read = some ms) : ∀ b ∈ ms, ∃ a ∈ l, read a = some b := by
  induction l generalizing ms with
  | nil =>
      obtain rfl : [] = ms := by simpa using h
      simp
  | cons a l ih =>
      simp only [List.mapM_cons, Option.bind_eq_bind, Option.bind_eq_some_iff] at h
      obtain ⟨b, hb, bs, hbs, hms⟩ := h
      obtain rfl : b :: bs = ms := by simpa using hms
      intro c hc
      rcases List.mem_cons.mp hc with rfl | hc
      · exact ⟨a, List.mem_cons_self, hb⟩
      · obtain ⟨d, hd, hread⟩ := ih hbs c hc
        exact ⟨d, List.mem_cons_of_mem a hd, hread⟩

/-! ### Reading what is written -/

theorem toNat?_ofNat {n : Nat} (h : n ≤ maxNat) : toNat? (.ofNat n) = some n :=
  Json.natOf?_toDigits h

theorem textKey?_encode (s : String) : textKey? (Json.encode s.toList) = some s := by
  rw [textKey?, Json.decode_encode, Option.map_some, String.ofList_toList]

theorem constructKey?_encode (k : Construct) :
    constructKey? (Json.encode k.name.toList) = some k := by
  have hname : Construct.ofName? k.name = some k := by cases k <;> rfl
  rw [constructKey?, textKey?_encode, Option.bind_some, hname]

/-- A map is read back if its keys and its values are. -/
theorem toMap?_object {κ α : Type} [Ord κ] [Std.TransOrd κ] {key : List Char → Option κ}
    {value : Json → Option α} (keyText : κ → List Char) {f : α → Json} {m : SortedMap κ α}
    (hkey : ∀ e ∈ m.entries, key (keyText e.1) = some e.1)
    (hvalue : ∀ e ∈ m.entries, value (f e.2) = some e.2) :
    toMap? key value (.object (m.entries.map fun e => (keyText e.1, f e.2))) = some m := by
  have hread : (m.entries.map fun e => (keyText e.1, f e.2)).mapM (fun e => do
      let k ← key e.1
      let v ← value e.2
      some (k, v)) = some (m.entries.map id) :=
    mapM_map_eq_some fun e he => by simp [hkey e he, hvalue e he]
  rw [toMap?, hread, Option.map_some, List.map_id, SortedMap.ofList_entries]

theorem toMap?_ofNatMap {α : Type} {value : Json → Option α} {f : α → Json} {m : SortedMap Nat α}
    (hkey : ∀ e ∈ m.entries, e.1 ≤ maxNat)
    (hvalue : ∀ e ∈ m.entries, value (f e.2) = some e.2) :
    toMap? Json.natOf? value (ofNatMap f m) = some m :=
  toMap?_object (Nat.toDigits 10) (fun e he => Json.natOf?_toDigits (hkey e he)) hvalue

theorem toMap?_ofTextMap {α : Type} {value : Json → Option α} {f : α → Json}
    {m : SortedMap String α} (hvalue : ∀ e ∈ m.entries, value (f e.2) = some e.2) :
    toMap? textKey? value (ofTextMap f m) = some m := by
  rw [ofTextMap, object, List.map_map]
  exact toMap?_object (fun s => Json.encode s.toList) (fun e _ => textKey?_encode e.1) hvalue

theorem toMap?_ofConstructMap {α : Type} {value : Json → Option α} {f : α → Json}
    {m : SortedMap Construct α} (hvalue : ∀ e ∈ m.entries, value (f e.2) = some e.2) :
    toMap? constructKey? value (ofConstructMap f m) = some m := by
  rw [ofConstructMap, object, List.map_map]
  exact toMap?_object (fun k => Json.encode k.name.toList)
    (fun e _ => constructKey?_encode e.1) hvalue

theorem valuesOf_eq {es : List (String × Json)} (h : (es.map (·.1)).Nodup) {e : String × Json}
    (he : e ∈ es) : valuesOf e.1 es = [e.2] := by
  induction es with
  | nil => cases he
  | cons d es ih =>
      obtain ⟨hd, hes⟩ := List.nodup_cons.mp h
      rcases List.mem_cons.mp he with rfl | he
      · have hnil : (es.filter fun d => d.1 == e.1) = [] :=
          List.filter_eq_nil_iff.mpr fun d hmem heq =>
            hd (List.mem_map.mpr ⟨d, hmem, eq_of_beq heq⟩)
        simp [valuesOf, hnil]
      · have hne : d.1 ≠ e.1 := fun heq => hd (List.mem_map.mpr ⟨e, he, heq.symm⟩)
        rw [valuesOf, List.filter_cons_of_neg (by simpa using hne)]
        exact ih hes he

/-- The fields of an object are found by their names. -/
theorem fields?_object {es : List (String × Json)} (h : (es.map (·.1)).Nodup) :
    fields? (es.map (·.1)) (object es) = some (es.map (·.2)) := by
  have hnames : (es.map fun e => (Json.encode e.1.toList, e.2)).mapM
      (fun e => (textKey? e.1).map fun k => (k, e.2)) = some (es.map id) :=
    mapM_map_eq_some fun e _ => by rw [textKey?_encode, Option.map_some, id]
  rw [object, fields?, hnames, List.map_id]
  exact mapM_map_eq_some fun e he => by rw [valuesOf_eq h he]

theorem toScope?_ofScope {s : ScopeScore} (h : s.Fits) : toScope? (ofScope s) = some s := by
  have hfields : fields? ["dc", "cc"] (ofScope s) = some [.ofNat s.dc, .ofNat s.cc] :=
    fields?_object (by simp)
  simp [toScope?, hfields, toNat?_ofNat h.dc, toNat?_ofNat h.cc]

theorem toRecord?_ofRecord {r : StructureRecord} (h : r.Fits) :
    toRecord? (ofRecord r) = some r := by
  have hfields : fields? ["count", "nesting_levels", "level_counts", "nested_conditions"]
      (ofRecord r) = some [.ofNat r.count, .array (r.nestingLevels.map .ofNat),
        ofNatMap .ofNat r.levelCounts, ofNatMap (ofConstructMap .ofNat) r.nestedConditions] :=
    fields?_object (by simp)
  have hlevels : toList? toNat? (.array (r.nestingLevels.map .ofNat)) = some r.nestingLevels := by
    have hread := mapM_map_eq_some (g := id) fun n hn => toNat?_ofNat (h.levels n hn)
    rwa [List.map_id] at hread
  have hcounts : toMap? Json.natOf? toNat? (ofNatMap .ofNat r.levelCounts) = some r.levelCounts :=
    toMap?_ofNatMap (fun e he => (h.counts e he).1) fun e he => toNat?_ofNat (h.counts e he).2
  have hnested : toMap? Json.natOf? (toMap? constructKey? toNat?)
      (ofNatMap (ofConstructMap .ofNat) r.nestedConditions) = some r.nestedConditions :=
    toMap?_ofNatMap (fun e he => (h.nested e he).1) fun e he =>
      toMap?_ofConstructMap fun d hd => toNat?_ofNat ((h.nested e he).2 d hd)
  simp [toRecord?, hfields, toNat?_ofNat h.count, hlevels, hcounts, hnested]

theorem toBreakdown?_ofBreakdown {b : Breakdown} (h : b.Fits) :
    toBreakdown? (ofBreakdown b) = some b := by
  have hfields : fields? ["dc", "cc", "line_scores", "methods", "classes", "structures"]
      (ofBreakdown b) = some [.ofNat b.dc, .ofNat b.cc, ofNatMap .ofNat b.lineScores,
        ofTextMap ofScope b.methods, ofTextMap ofScope b.classes,
        ofConstructMap ofRecord b.structures] :=
    fields?_object (by simp)
  have hlines : toMap? Json.natOf? toNat? (ofNatMap .ofNat b.lineScores) = some b.lineScores :=
    toMap?_ofNatMap (fun e he => (h.lines e he).1) fun e he => toNat?_ofNat (h.lines e he).2
  have hmethods : toMap? textKey? toScope? (ofTextMap ofScope b.methods) = some b.methods :=
    toMap?_ofTextMap fun e he => toScope?_ofScope (h.methods e he)
  have hclasses : toMap? textKey? toScope? (ofTextMap ofScope b.classes) = some b.classes :=
    toMap?_ofTextMap fun e he => toScope?_ofScope (h.classes e he)
  have hstructures : toMap? constructKey? toRecord? (ofConstructMap ofRecord b.structures) =
      some b.structures :=
    toMap?_ofConstructMap fun e he => toRecord?_ofRecord (h.structures e he)
  simp [toBreakdown?, hfields, toNat?_ofNat h.dc, toNat?_ofNat h.cc, hlines, hmethods, hclasses,
    hstructures]

/-! ### What is written is legible -/

section
variable {α : Type} {f : α → Json}

theorem legible_object {es : List (String × Json)} (h : ∀ e ∈ es, e.2.Legible) :
    (object es).Legible := by
  refine .object ?_ ?_
  · intro e he
    obtain ⟨d, -, rfl⟩ := List.mem_map.mp he
    exact ⟨d.1.toList, rfl⟩
  · intro e he
    obtain ⟨d, hd, rfl⟩ := List.mem_map.mp he
    exact h d hd

theorem legible_ofNatMap (h : ∀ a, (f a).Legible) (m : SortedMap Nat α) :
    (ofNatMap f m).Legible := by
  refine .object ?_ ?_
  · intro e he
    obtain ⟨d, -, rfl⟩ := List.mem_map.mp he
    exact ⟨Nat.toDigits 10 d.1, (Json.encode_toDigits d.1).symm⟩
  · intro e he
    obtain ⟨d, -, rfl⟩ := List.mem_map.mp he
    exact h d.2

/-- A map whose keys are written by their names. -/
theorem legible_named {κ : Type} (name : κ → String) (h : ∀ a, (f a).Legible)
    (es : List (κ × α)) : (object (es.map fun e => (name e.1, f e.2))).Legible := by
  refine legible_object fun e he => ?_
  obtain ⟨d, -, rfl⟩ := List.mem_map.mp he
  exact h d.2

theorem legible_ofTextMap (h : ∀ a, (f a).Legible) (m : SortedMap String α) :
    (ofTextMap f m).Legible := legible_named id h m.entries

theorem legible_ofConstructMap (h : ∀ a, (f a).Legible) (m : SortedMap Construct α) :
    (ofConstructMap f m).Legible := legible_named Construct.name h m.entries

end

theorem legible_ofScope (s : ScopeScore) : (ofScope s).Legible := by
  refine legible_object ?_
  simp only [List.forall_mem_cons]
  exact ⟨.number _, .number _, by simp⟩

theorem legible_ofRecord (r : StructureRecord) : (ofRecord r).Legible := by
  refine legible_object ?_
  simp only [List.forall_mem_cons]
  refine ⟨.number _, .array ?_, legible_ofNatMap .number _,
    legible_ofNatMap (legible_ofConstructMap .number) _, by simp⟩
  intro v hv
  obtain ⟨n, -, rfl⟩ := List.mem_map.mp hv
  exact .number n

theorem legible_ofBreakdown (b : Breakdown) : (ofBreakdown b).Legible := by
  refine legible_object ?_
  simp only [List.forall_mem_cons]
  exact ⟨.number _, .number _, legible_ofNatMap .number _, legible_ofTextMap legible_ofScope _,
    legible_ofTextMap legible_ofScope _, legible_ofConstructMap legible_ofRecord _, by simp⟩

theorem parse?_render {b : Breakdown} (h : b.Fits) : parse? (render b) = some b := by
  rw [parse?, render, Json.parse?_pretty (legible_ofBreakdown b), Option.bind_some,
    toBreakdown?_ofBreakdown h]

/-! ### What is read can be written -/

theorem le_of_natOf? {raw : List Char} {n : Nat} (h : Json.natOf? raw = some n) : n ≤ maxNat := by
  simp only [Json.natOf?, Option.ite_none_left_eq_some, Option.ite_none_right_eq_some,
    Option.some.injEq] at h
  exact h.2.2 ▸ h.2.1

theorem le_of_toNat? {j : Json} {n : Nat} (h : toNat? j = some n) : n ≤ maxNat := by
  cases j with
  | number raw => exact le_of_natOf? h
  | null | boolean | string | array | object => cases h

/-- Every entry of a map that is read comes from a key and a value that were. -/
theorem of_toMap? {κ α : Type} [Ord κ] [Std.TransOrd κ] [Std.LawfulEqOrd κ]
    {key : List Char → Option κ} {value : Json → Option α} {j : Json} {m : SortedMap κ α}
    (h : toMap? key value j = some m) :
    ∀ e ∈ m.entries, (∃ raw, key raw = some e.1) ∧ ∃ v, value v = some e.2 := by
  cases j with
  | object es =>
      obtain ⟨l, hl, rfl⟩ := Option.map_eq_some_iff.mp h
      intro e he
      obtain ⟨d, -, hd⟩ := exists_of_mapM_eq_some hl e (SortedMap.mem_of_mem_ofList he)
      simp only [Option.bind_eq_bind, Option.bind_eq_some_iff, Option.some.injEq] at hd
      obtain ⟨k, hk, v, hv, rfl⟩ := hd
      exact ⟨⟨d.1, hk⟩, d.2, hv⟩
  | null | boolean | number | string | array => cases h

theorem fits_of_toScope? {j : Json} {s : ScopeScore} (h : toScope? j = some s) : s.Fits := by
  unfold toScope? at h
  split at h
  · simp only [Option.bind_eq_bind, Option.bind_eq_some_iff, Option.some.injEq] at h
    obtain ⟨dc, hdc, cc, hcc, rfl⟩ := h
    exact ⟨le_of_toNat? hdc, le_of_toNat? hcc⟩
  · cases h

/-- The entries of a map from numbers to numbers. -/
theorem le_of_toMap? {j : Json} {m : SortedMap Nat Nat}
    (h : toMap? Json.natOf? toNat? j = some m) : ∀ e ∈ m.entries, e.1 ≤ maxNat ∧ e.2 ≤ maxNat := by
  intro e he
  obtain ⟨⟨raw, hraw⟩, v, hv⟩ := of_toMap? h e he
  exact ⟨le_of_natOf? hraw, le_of_toNat? hv⟩

theorem le_of_toList? {j : Json} {l : List Nat} (h : toList? toNat? j = some l) :
    ∀ n ∈ l, n ≤ maxNat := by
  cases j with
  | array vs =>
      intro n hn
      obtain ⟨v, -, hv⟩ := exists_of_mapM_eq_some h n hn
      exact le_of_toNat? hv
  | null | boolean | number | string | object => cases h

theorem fits_of_toRecord? {j : Json} {r : StructureRecord} (h : toRecord? j = some r) :
    r.Fits := by
  unfold toRecord? at h
  split at h
  · simp only [Option.bind_eq_bind, Option.bind_eq_some_iff, Option.some.injEq] at h
    obtain ⟨count, hcount, levels, hlevels, counts, hcounts, nested, hnested, rfl⟩ := h
    refine ⟨le_of_toNat? hcount, le_of_toList? hlevels, le_of_toMap? hcounts, fun e he => ?_⟩
    obtain ⟨⟨raw, hraw⟩, v, hv⟩ := of_toMap? hnested e he
    refine ⟨le_of_natOf? hraw, fun d hd => ?_⟩
    obtain ⟨-, w, hw⟩ := of_toMap? hv d hd
    exact le_of_toNat? hw
  · cases h

theorem fits_of_toBreakdown? {j : Json} {b : Breakdown} (h : toBreakdown? j = some b) :
    b.Fits := by
  unfold toBreakdown? at h
  split at h
  · simp only [Option.bind_eq_bind, Option.bind_eq_some_iff, Option.some.injEq] at h
    obtain ⟨dc, hdc, cc, hcc, lines, hlines, methods, hmethods, classes, hclasses, structures,
      hstructures, rfl⟩ := h
    refine ⟨le_of_toNat? hdc, le_of_toNat? hcc, le_of_toMap? hlines, ?_, ?_, ?_⟩
    · intro e he
      obtain ⟨-, v, hv⟩ := of_toMap? hmethods e he
      exact fits_of_toScope? hv
    · intro e he
      obtain ⟨-, v, hv⟩ := of_toMap? hclasses e he
      exact fits_of_toScope? hv
    · intro e he
      obtain ⟨-, v, hv⟩ := of_toMap? hstructures e he
      exact fits_of_toRecord? hv
  · cases h

/-- What is read has no numbers but such as can be read. -/
theorem fits_of_parse? {text : String} {b : Breakdown} (h : parse? text = some b) : b.Fits := by
  obtain ⟨j, -, hj⟩ := Option.bind_eq_some_iff.mp h
  exact fits_of_toBreakdown? hj

/-- **A breakdown is read back from its text**, if its numbers can be read, which they can if it was
read itself; so writing what is read from that text gives the text again. -/
theorem breakdown_roundTrips (b : Breakdown) (h : b.Fits ∨ ∃ text, parse? text = some b) :
    parse? (render b) = some b ∧ (parse? (render b)).map render = some (render b) := by
  have hfits : b.Fits := by
    rcases h with h | ⟨text, h⟩
    · exact h
    · exact fits_of_parse? h
  have hread := parse?_render hfits
  exact ⟨hread, by rw [hread, Option.map_some]⟩

/-- A breakdown with the largest numbers, and with names that cannot be written as they are: empty,
with quotes and backslashes, with control characters, and outside the first plane. -/
def oddlyNamed : Breakdown where
  dc := maxNat
  cc := 0
  lineScores := .ofList [(0, maxNat), (maxNat, 0)]
  methods := .ofList [("", ⟨0, 1⟩), ("\"\\/", ⟨maxNat, 1⟩)]
  classes := .ofList [("\x00\x08\n\x1f\x7f", .baseline), ("\u2028😀", .baseline)]
  structures := .ofList [(.elseIf, ⟨1, [maxNat], .ofList [(maxNat, 1)],
    .ofList [(0, ∅), (7, .ofList [(.tryBlock, 2)])]⟩), (.ternary, .empty)]

theorem breakdown_roundTrips_sample : oddlyNamed.Fits ∧
    parse? (render oddlyNamed) = some oddlyNamed ∧
      (parse? (render oddlyNamed)).map render = some (render oddlyNamed) := by
  have hfits : oddlyNamed.Fits := by decide +kernel
  exact ⟨hfits, breakdown_roundTrips oddlyNamed (.inl hfits)⟩

end Wire

end DecisionScore
