import Mathlib.Data.List.Infix
import DecisionScore.Brace.Condition
import DecisionScore.Proofs.Text

/-! # The first group in parentheses

A text is balanced if no part at its start closes more parentheses than it opens, and all of it
closes as many as it opens.  What governs a construct other than a ternary is the balanced text
behind the first parenthesis of the line, up to one that closes it (`firstGroup_eq`,
`firstGroup_eq_nil`), and there is at most one.

The same text is found by a program that counts the open parentheses and the bytes before a place,
and then cuts the line at these numbers of bytes.  It could stop where it counts below zero or
would cut inside a character, and it never does (`scanGroup_eq`). -/

namespace DecisionScore.Brace

open DecisionScore.Text

/-! ### Balanced texts -/

/-- A text that closes what it opens and `depth` parentheses more, these last ones not before its
end. -/
structure Closes (depth : Nat) (text : List Char) : Prop where
  starts : ∀ start, start <+: text → start.count ')' ≤ start.count '(' + depth
  total : text.count ')' = text.count '(' + depth

instance (depth : Nat) (text : List Char) : Decidable (Closes depth text) :=
  decidable_of_iff
    ((∀ start ∈ text.inits, start.count ')' ≤ start.count '(' + depth) ∧
      text.count ')' = text.count '(' + depth)
    ⟨fun h => ⟨fun start hstart => h.1 start ((List.mem_inits start text).mpr hstart), h.2⟩,
      fun h => ⟨fun start hstart => h.starts start ((List.mem_inits start text).mp hstart),
        h.total⟩⟩

/-- A text that opens and closes its parentheses in pairs. -/
def Balanced (text : List Char) : Prop := Closes 0 text

instance (text : List Char) : Decidable (Balanced text) :=
  inferInstanceAs (Decidable (Closes 0 text))

variable {depth : Nat} {text : List Char}

theorem closes_nil : Closes depth [] ↔ depth = 0 := by
  constructor
  · intro h
    simpa using h.total.symm
  · rintro rfl
    refine ⟨fun start hstart => ?_, rfl⟩
    rw [List.prefix_nil.mp hstart]
    exact Nat.le_refl 0

/-- A first character that closes `closed` parentheses changes how many are left to close. -/
theorem closes_cons {c : Char} {depth' : Nat} (closed : Nat)
    (hclose : ∀ cs, (c :: cs).count ')' = cs.count ')' + closed)
    (hopen : ∀ cs, (c :: cs).count '(' + depth = cs.count '(' + depth' + closed) :
    Closes depth (c :: text) ↔ Closes depth' text := by
  have hle : ∀ cs, (c :: cs).count ')' ≤ (c :: cs).count '(' + depth ↔
      cs.count ')' ≤ cs.count '(' + depth' := by
    intro cs
    rw [hclose, hopen]
    exact Nat.add_le_add_iff_right
  have heq : (c :: text).count ')' = (c :: text).count '(' + depth ↔
      text.count ')' = text.count '(' + depth' := by
    rw [hclose, hopen]
    exact Nat.add_right_cancel_iff
  constructor
  · intro h
    refine ⟨fun start hstart => (hle start).mp (h.starts _ ?_), heq.mp h.total⟩
    exact (List.prefix_cons_inj c).mpr hstart
  · intro h
    refine ⟨fun start hstart => ?_, heq.mpr h.total⟩
    rcases List.prefix_cons_iff.mp hstart with rfl | ⟨rest, rfl, hrest⟩
    · exact Nat.zero_le _
    · exact (hle rest).mpr (h.starts rest hrest)

theorem closes_open : Closes depth ('(' :: text) ↔ Closes (depth + 1) text := by
  apply closes_cons 0
  · intro cs
    exact List.count_cons_of_ne (by decide)
  · intro cs
    rw [List.count_cons_self]
    omega

theorem closes_close : Closes (depth + 1) (')' :: text) ↔ Closes depth text := by
  apply closes_cons 1
  · intro cs
    exact List.count_cons_self
  · intro cs
    rw [List.count_cons_of_ne (by decide), Nat.add_assoc]

theorem not_closes_close : ¬Closes 0 (')' :: text) := by
  intro h
  have hfirst := h.starts [')'] (List.prefix_append [')'] text)
  exact absurd hfirst (by decide)

theorem closes_other {c : Char} (hopen : c ≠ '(') (hclose : c ≠ ')') :
    Closes depth (c :: text) ↔ Closes depth text := by
  apply closes_cons 0
  · intro cs
    exact List.count_cons_of_ne hclose
  · intro cs
    rw [List.count_cons_of_ne hopen]
    rfl

/-! ### The text up to a parenthesis -/

/-- Whether a text stands at the start of another one, closes `depth` parentheses, and is followed
by one that closes one more. -/
def EndsGroup (depth : Nat) (cs group : List Char) : Prop :=
  Closes depth group ∧ ∃ after, cs = group ++ ')' :: after

/-- A first character that does not end the group belongs to it. -/
theorem endsGroup_cons {c : Char} {cs group : List Char} {depth' : Nat}
    (hcloses : ∀ text, Closes depth (c :: text) ↔ Closes depth' text)
    (hc : c = ')' → depth ≠ 0) :
    EndsGroup depth (c :: cs) group ↔ ∃ rest, group = c :: rest ∧ EndsGroup depth' cs rest := by
  constructor
  · rintro ⟨hgroup, after, hcs⟩
    cases group with
    | nil =>
        obtain ⟨hclose, -⟩ := List.cons.inj hcs
        exact absurd (closes_nil.mp hgroup) (hc hclose)
    | cons d rest =>
        obtain ⟨rfl, hrest⟩ := List.cons.inj hcs
        exact ⟨rest, rfl, (hcloses rest).mp hgroup, after, hrest⟩
  · rintro ⟨rest, rfl, hrest, after, rfl⟩
    exact ⟨(hcloses rest).mpr hrest, after, rfl⟩

theorem closeGroup?_eq_some {cs group : List Char} :
    closeGroup? depth cs = some group ↔ EndsGroup depth cs group := by
  have hcons : ∀ {c : Char} {depth depth' : Nat} {cs group : List Char},
      (∀ text, Closes depth (c :: text) ↔ Closes depth' text) → (c = ')' → depth ≠ 0) →
      (∀ {rest}, closeGroup? depth' cs = some rest ↔ EndsGroup depth' cs rest) →
      ((closeGroup? depth' cs).map (c :: ·) = some group ↔ EndsGroup depth (c :: cs) group) := by
    intro c depth depth' cs group hcloses hc ih
    rw [endsGroup_cons hcloses hc, Option.map_eq_some_iff]
    exact exists_congr fun rest => by rw [ih, and_comm, eq_comm]
  fun_induction closeGroup? depth cs generalizing group with
  | case1 depth => simp [EndsGroup]
  | case2 depth cs ih => exact hcons (fun _ => closes_open) (fun h => absurd h (by decide)) ih
  | case3 cs hopen =>
      -- the parenthesis that ends the group
      constructor
      · intro h
        obtain rfl := Option.some.inj h
        exact ⟨closes_nil.mpr rfl, cs, rfl⟩
      · rintro ⟨hgroup, after, hcs⟩
        cases group with
        | nil => rfl
        | cons d rest =>
            obtain ⟨rfl, -⟩ := List.cons.inj hcs
            exact absurd hgroup not_closes_close
  | case4 cs d hopen ih => exact hcons (fun _ => closes_close) (fun _ => Nat.succ_ne_zero d) ih
  | case5 depth c cs hopen hclose ih =>
      exact hcons (fun _ => closes_other hopen hclose) (fun h => absurd h hclose) ih

/-! ### The first group of a line -/

/-- The first group in parentheses: the balanced text between the first one and one that closes
it. -/
def IsFirstGroup (line group : List Char) : Prop :=
  ∃ before after, line = before ++ '(' :: (group ++ ')' :: after) ∧ '(' ∉ before ∧ Balanced group

theorem isFirstGroup_iff {before cs group : List Char} (h : '(' ∉ before) :
    IsFirstGroup (before ++ '(' :: cs) group ↔ EndsGroup 0 cs group := by
  constructor
  · rintro ⟨before', after, hline, hbefore, hgroup⟩
    have hcs := (span_ne h cs).2
    rw [hline, (span_ne hbefore _).2] at hcs
    exact ⟨hgroup, after, (List.cons.inj hcs).2.symm⟩
  · rintro ⟨hgroup, after, rfl⟩
    exact ⟨before, after, rfl, h, hgroup⟩

theorem firstGroup_append {before : List Char} (h : '(' ∉ before) (cs : List Char) :
    firstGroup (before ++ '(' :: cs) = (closeGroup? 0 cs).getD [] := by
  rw [firstGroup, (span_ne h cs).2]

theorem firstGroup_of_not_mem {line : List Char} (h : '(' ∉ line) : firstGroup line = [] := by
  have hdrop : line.dropWhile (· != '(') = [] := by
    rw [List.dropWhile_eq_nil_iff]
    intro c hc
    rw [bne_iff_ne]
    rintro rfl
    exact h hc
  rw [firstGroup, hdrop]

theorem firstGroup_eq {line group : List Char} (h : IsFirstGroup line group) :
    firstGroup line = group := by
  obtain ⟨before, after, rfl, hbefore, hgroup⟩ := h
  rw [firstGroup_append hbefore, closeGroup?_eq_some.mpr ⟨hgroup, after, rfl⟩]
  rfl

theorem firstGroup_eq_nil {line : List Char} (h : ¬∃ group, IsFirstGroup line group) :
    firstGroup line = [] := by
  by_cases hopen : '(' ∈ line
  · obtain ⟨before, cs, rfl, hbefore⟩ := List.eq_append_cons_of_mem hopen
    rw [firstGroup_append hbefore]
    cases hgroup : closeGroup? 0 cs with
    | none => rfl
    | some group =>
        have hends := closeGroup?_eq_some.mp hgroup
        exact absurd ⟨group, (isFirstGroup_iff hbefore).mpr hends⟩ h
  · exact firstGroup_of_not_mem hopen

/-! ### The same on bytes -/

/-- Why a program on bytes can stop. -/
inductive Fault where
  /-- A counter that is at zero is to be lowered. -/
  | belowZero
  /-- A text is to be cut inside a character, behind its end or backwards. -/
  | noBoundary
deriving DecidableEq, Repr

/-- The bytes of a text from number `i` on and before number `j`, as a text. -/
def slice (s : String) (i j : Nat) : Except Fault String :=
  if h : (String.Pos.Raw.mk i).IsValid s ∧ (String.Pos.Raw.mk j).IsValid s ∧ i ≤ j then
    .ok (s.slice (s.pos ⟨i⟩ h.1) (s.pos ⟨j⟩ h.2.1) h.2.2).copy
  else .error .noBoundary

/-- The number of bytes before the first opening parenthesis. -/
def findOpen? (bytes : Nat) : List Char → Option Nat
  | [] => none
  | c :: cs => if c = '(' then some bytes else findOpen? (bytes + c.utf8Size) cs

/-- The number of bytes before the parenthesis that brings the counter of open ones to zero. -/
def findClose? (opened bytes : Nat) : List Char → Except Fault (Option Nat)
  | [] => .ok none
  | c :: cs =>
    if c = '(' then findClose? (opened + 1) (bytes + c.utf8Size) cs
    else if c = ')' then
      if opened = 0 then .error .belowZero
      else if opened - 1 = 0 then .ok (some bytes)
      else findClose? (opened - 1) (bytes + c.utf8Size) cs
    else findClose? opened (bytes + c.utf8Size) cs

/-- The first group in parentheses, found and cut out by bytes. -/
def scanGroup (line : String) : Except Fault String :=
  match findOpen? 0 line.toList with
  | none => .ok ""
  | some start => do
    let rest ← slice line start line.utf8ByteSize
    match ← findClose? 0 0 rest.toList with
    | none => return ""
    | some stop => slice line (start + 1) (start + stop)

/-- A text is cut between two of its parts. -/
theorem slice_append (a b c : String) :
    slice (a ++ b ++ c) a.utf8ByteSize (a ++ b).utf8ByteSize = .ok b := by
  have hstart : (String.Pos.Raw.mk a.utf8ByteSize).IsValid (a ++ b ++ c) :=
    String.Pos.Raw.isValid_iff_exists_append.mpr ⟨a, b ++ c, String.append_assoc, rfl⟩
  have hstop : (String.Pos.Raw.mk (a ++ b).utf8ByteSize).IsValid (a ++ b ++ c) :=
    String.Pos.Raw.isValid_iff_exists_append.mpr ⟨a ++ b, c, rfl, rfl⟩
  have hle : a.utf8ByteSize ≤ (a ++ b).utf8ByteSize := by
    rw [String.utf8ByteSize_append]
    exact Nat.le_add_right _ _
  have hbefore : ((a ++ b ++ c).pos _ hstart).Splits a (b ++ c) := ⟨String.append_assoc, rfl⟩
  have hbehind : ((a ++ b ++ c).pos _ hstop).Splits (a ++ b) c := ⟨rfl, rfl⟩
  obtain ⟨_, hcopy⟩ := String.copy_slice_eq_iff_splits.mpr ⟨a, c, hbefore, hbehind⟩
  rw [slice, dif_pos ⟨hstart, hstop, hle⟩]
  exact congrArg Except.ok hcopy

/-- The number of bytes of a text. -/
def byteLength (cs : List Char) : Nat := (String.ofList cs).utf8ByteSize

theorem byteLength_cons (c : Char) (cs : List Char) :
    byteLength (c :: cs) = c.utf8Size + byteLength cs := by
  rw [byteLength, String.ofList_cons, String.utf8ByteSize_append, String.utf8ByteSize_singleton]
  rfl

theorem byteLength_append (cs ds : List Char) :
    byteLength (cs ++ ds) = byteLength cs + byteLength ds := by
  rw [byteLength, String.ofList_append, String.utf8ByteSize_append]
  rfl

theorem slice_ofList (before cs after : List Char) :
    slice (String.ofList (before ++ cs ++ after)) (byteLength before)
      (byteLength before + byteLength cs) = .ok (String.ofList cs) := by
  rw [← byteLength_append, String.ofList_append, String.ofList_append, byteLength, byteLength,
    String.ofList_append]
  exact slice_append _ _ _

theorem findOpen?_of_not_mem {cs : List Char} (h : '(' ∉ cs) (bytes : Nat) :
    findOpen? bytes cs = none := by
  induction cs generalizing bytes with
  | nil => rfl
  | cons c cs ih =>
      obtain ⟨hc, hcs⟩ := List.ne_and_not_mem_of_not_mem_cons h
      rw [findOpen?, if_neg (Ne.symm hc), ih hcs]

theorem findOpen?_append {before : List Char} (h : '(' ∉ before) (cs : List Char) (bytes : Nat) :
    findOpen? bytes (before ++ '(' :: cs) = some (bytes + byteLength before) := by
  induction before generalizing bytes with
  | nil => rfl
  | cons c before ih =>
      obtain ⟨hc, hbefore⟩ := List.ne_and_not_mem_of_not_mem_cons h
      rw [List.cons_append, findOpen?, if_neg (Ne.symm hc), ih hbefore, byteLength_cons,
        Nat.add_assoc]

/-- With a parenthesis open the counter is lowered to zero at the end of the group only. -/
theorem findClose?_eq (depth bytes : Nat) (cs : List Char) :
    findClose? (depth + 1) bytes cs =
      .ok ((closeGroup? depth cs).map fun group => bytes + byteLength group) := by
  have hcons : ∀ (c : Char) (depth bytes : Nat) (cs : List Char),
      ((closeGroup? depth cs).map fun group => bytes + c.utf8Size + byteLength group) =
        ((closeGroup? depth cs).map (c :: ·)).map fun group => bytes + byteLength group := by
    intro c depth bytes cs
    rw [Option.map_map]
    refine Option.map_congr fun group _ => ?_
    rw [Function.comp_apply, byteLength_cons, Nat.add_assoc]
  fun_induction closeGroup? depth cs generalizing bytes with
  | case1 depth => rfl
  | case2 depth cs ih => rw [findClose?, if_pos rfl, ih, hcons]
  | case3 cs hopen =>
      rw [findClose?, if_neg hopen, if_pos rfl, if_neg (Nat.succ_ne_zero 0), if_pos rfl]
      rfl
  | case4 cs d hopen ih =>
      rw [findClose?, if_neg hopen, if_pos rfl, if_neg (Nat.succ_ne_zero _), Nat.add_sub_cancel,
        if_neg (Nat.succ_ne_zero d), ih, hcons]
  | case5 depth c cs hopen hclose ih => rw [findClose?, if_neg hopen, if_neg hclose, ih, hcons]

/-- **On bytes**: the counter is never below zero, and all cuts are between characters. -/
theorem scanGroup_eq (line : List Char) :
    scanGroup (String.ofList line) = .ok (String.ofList (firstGroup line)) := by
  by_cases hopen : '(' ∈ line
  · obtain ⟨before, cs, rfl, hbefore⟩ := List.eq_append_cons_of_mem hopen
    have hstart : findOpen? 0 (before ++ '(' :: cs) = some (byteLength before) := by
      rw [findOpen?_append hbefore, Nat.zero_add]
    have hrest : slice (String.ofList (before ++ '(' :: cs)) (byteLength before)
        (String.ofList (before ++ '(' :: cs)).utf8ByteSize = .ok (String.ofList ('(' :: cs)) := by
      have h := slice_ofList before ('(' :: cs) []
      rwa [List.append_nil, ← byteLength_append] at h
    have hstop : findClose? 0 0 ('(' :: cs) =
        .ok ((closeGroup? 0 cs).map fun group => 1 + byteLength group) := by
      rw [findClose?, if_pos rfl]
      exact findClose?_eq 0 _ cs
    rw [scanGroup, String.toList_ofList, hstart, firstGroup_append hbefore]
    simp only [hrest, String.toList_ofList, hstop, bind, Except.bind]
    cases hgroup : closeGroup? 0 cs with
    | none => rfl
    | some group =>
        obtain ⟨-, after, rfl⟩ := closeGroup?_eq_some.mp hgroup
        have hparenthesis : byteLength ['('] = 1 := rfl
        have hcut := slice_ofList (before ++ ['(']) group (')' :: after)
        rw [byteLength_append, hparenthesis, Nat.add_assoc, List.append_assoc, List.append_assoc]
          at hcut
        exact hcut
  · rw [scanGroup, String.toList_ofList, findOpen?_of_not_mem hopen, firstGroup_of_not_mem hopen]

/-- **What governs a construct** other than a ternary: the first balanced group in parentheses, of
which there is at most one, and nothing where there is none.  A program that counts open parentheses
and bytes finds it without lowering its counter below zero and cuts between characters. -/
theorem conditionText_firstGroup (line : List Char) {kind : Construct} (h : kind ≠ .ternary) :
    (∀ group, IsFirstGroup line group →
      conditionText line kind = group ∧ ∀ other, IsFirstGroup line other → other = group) ∧
    ((¬∃ group, IsFirstGroup line group) → conditionText line kind = []) ∧
    scanGroup (String.ofList line) = .ok (String.ofList (conditionText line kind)) := by
  have htext : conditionText line kind = firstGroup line := if_neg h
  rw [htext]
  refine ⟨fun group hgroup => ⟨firstGroup_eq hgroup, fun other hother => ?_⟩, firstGroup_eq_nil,
    scanGroup_eq line⟩
  exact (firstGroup_eq hother).symm.trans (firstGroup_eq hgroup)

/-- A line with a closing parenthesis before its first group, and with letters of several bytes. -/
def groupedLine : List Char :=
  "é) if ".toList ++ '(' :: ("x < (ü) && “y”".toList ++ ')' :: " return )".toList)

theorem conditionText_firstGroup_sample :
    IsFirstGroup groupedLine "x < (ü) && “y”".toList ∧
    conditionText groupedLine .ifBranch = "x < (ü) && “y”".toList ∧
    scanGroup (.ofList groupedLine) = .ok (.ofList (conditionText groupedLine .ifBranch)) := by
  have hgroup : IsFirstGroup groupedLine "x < (ü) && “y”".toList :=
    ⟨"é) if ".toList, " return )".toList, rfl, by decide +kernel, by decide +kernel⟩
  have hkind : Construct.ifBranch ≠ .ternary := by decide
  obtain ⟨hsome, -, hbytes⟩ := conditionText_firstGroup groupedLine hkind
  exact ⟨hgroup, (hsome _ hgroup).1, hbytes⟩

end DecisionScore.Brace
