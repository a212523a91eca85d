import Mathlib.Algebra.BigOperators.Group.List.Basic
import Mathlib.Algebra.GroupWithZero.Nat
import Mathlib.Data.List.Sort
import DecisionScore.SortedMap

/-! # Reading and writing sorted maps

What a map gives for a key after a key was written (`get?_upsert`) and after many were
(`get?_foldl_upsert`, `get?_ofList`), that the keys of a map are those it gives something for
(`mem_keys`), that a map is made of its own entries (`ofList_entries`), and what writing a key does
to a sum over all values (`sum_values_upsert`).  Maps that give the same for every key are equal
(`ext_get?`), and so the union of two maps (`unionWith`) and the map with all its keys moved on
(`shift`) are known by what they give.  Keys may be renamed in order before or after one is written
(`mapKeys_upsert`), and one to one before or after a map is made of its bindings
(`ofList_rename_perm`). -/

namespace DecisionScore

universe u v

/-- Lists that increase strictly are equal if they have the same members. -/
theorem eq_of_increasing {α : Type u} {order : α → α → Ordering} [Std.OrientedCmp order]
    {l k : List α} (hl : l.Pairwise fun a b => order a b = .lt)
    (hk : k.Pairwise fun a b => order a b = .lt) (h : ∀ a, a ∈ l ↔ a ∈ k) : l = k := by
  have hantisymm : Std.Antisymm fun a b => order a b = .lt :=
    ⟨fun _ _ hab hba => absurd hba (Std.OrientedCmp.not_lt_of_lt hab)⟩
  have hirrefl : Std.Irrefl fun a b => order a b = .lt :=
    ⟨fun _ h => absurd h (Std.OrientedCmp.not_lt_of_lt h)⟩
  exact hl.eq_of_mem_iff hk h

namespace SortedMap

variable {κ : Type u} {α : Type v} [Ord κ]

@[simp] theorem get?_empty (k : κ) : (∅ : SortedMap κ α).get? k = none := rfl

variable [Std.LawfulEqOrd κ]

theorem find?_cons_self (k : κ) (a : α) (l : List (κ × α)) : find? k ((k, a) :: l) = some a := by
  rw [find?, if_pos Std.ReflCmp.compare_self]

theorem find?_cons_of_ne {j k : κ} (h : j ≠ k) (a : α) (l : List (κ × α)) :
    find? j ((k, a) :: l) = find? j l := by
  rw [find?, if_neg fun he => h (Std.LawfulEqOrd.eq_of_compare he)]

/-- Keys in increasing order: one that is below all of them is bound to nothing. -/
theorem find?_eq_none {k : κ} {l : List (κ × α)} (h : ∀ e ∈ l, compare k e.1 = .lt) :
    find? k l = none := by
  induction l with
  | nil => rfl
  | cons e l ih =>
      have hlt := h e List.mem_cons_self
      have hne : k ≠ e.1 := fun he => by
        rw [Std.LawfulEqOrd.compare_eq_iff_eq.mpr he] at hlt
        cases hlt
      rw [find?_cons_of_ne hne]
      exact ih fun d hd => h d (List.mem_cons_of_mem e hd)

theorem find?_upsertEntries_of_ne {j k : κ} (h : j ≠ k) (f : Option α → α) (l : List (κ × α)) :
    find? j (upsertEntries k f l) = find? j l := by
  fun_induction upsertEntries k f l with
  | case1 => exact find?_cons_of_ne h _ _
  | case2 k' a rest hc => exact find?_cons_of_ne h _ _
  | case3 k' a rest hc =>
      have hk : k = k' := Std.LawfulEqOrd.eq_of_compare hc
      subst hk
      rw [find?_cons_of_ne h, find?_cons_of_ne h]
  | case4 k' a rest hc ih =>
      by_cases hj : j = k'
      · subst hj
        rw [find?_cons_self, find?_cons_self]
      · rw [find?_cons_of_ne hj, find?_cons_of_ne hj, ih]

/-- The keys of a map are those that are bound to something. -/
theorem mem_keys [DecidableEq κ] (m : SortedMap κ α) (k : κ) :
    k ∈ m.keys ↔ (m.get? k).isSome = true := by
  unfold keys get?
  induction m.entries with
  | nil => simp [find?]
  | cons e l ih =>
      obtain ⟨k', a⟩ := e
      by_cases h : k = k'
      · subst h
        simp [find?_cons_self]
      · rw [find?_cons_of_ne h, List.map_cons, List.mem_cons, ih]
        simp [h]

variable [Std.TransOrd κ]

theorem find?_eq_none_of_lt {k : κ} {e : κ × α} {l : List (κ × α)}
    (h : (e :: l).Pairwise (fun a b => compare a.1 b.1 = .lt)) (hk : compare k e.1 = .lt) :
    find? k (e :: l) = none := by
  refine find?_eq_none fun d hd => ?_
  rcases List.mem_cons.mp hd with rfl | hd
  · exact hk
  · exact Std.TransCmp.lt_trans hk ((List.pairwise_cons.mp h).1 d hd)

theorem find?_upsertEntries_self (k : κ) (f : Option α → α) (l : List (κ × α))
    (h : l.Pairwise (fun a b => compare a.1 b.1 = .lt)) :
    find? k (upsertEntries k f l) = some (f (find? k l)) := by
  fun_induction upsertEntries k f l with
  | case1 => exact find?_cons_self k _ _
  | case2 k' a rest hc => rw [find?_cons_self, find?_eq_none_of_lt h hc]
  | case3 k' a rest hc =>
      have hk : k = k' := Std.LawfulEqOrd.eq_of_compare hc
      subst hk
      rw [find?_cons_self, find?_cons_self]
  | case4 k' a rest hc ih =>
      have hne : k ≠ k' := fun he => by
        rw [Std.LawfulEqOrd.compare_eq_iff_eq.mpr he] at hc
        cases hc
      rw [find?_cons_of_ne hne, find?_cons_of_ne hne, ih (List.pairwise_cons.mp h).2]

/-- Writing a key changes what is bound to that key and nothing else. -/
theorem get?_upsert [DecidableEq κ] (m : SortedMap κ α) (k j : κ) (f : Option α → α) :
    (m.upsert k f).get? j = if j = k then some (f (m.get? k)) else m.get? j := by
  unfold get? upsert
  by_cases h : j = k
  · subst h
    rw [if_pos rfl]
    exact find?_upsertEntries_self j f m.entries m.sorted
  · rw [if_neg h]
    exact find?_upsertEntries_of_ne h f m.entries

/-- Writing many keys one after the other: what is bound to a key comes from the writes to that
key alone, in their order. -/
theorem get?_foldl_upsert {β : Type*} [DecidableEq κ] (key : β → κ) (f : β → Option α → α)
    (l : List β) (m : SortedMap κ α) (k : κ) :
    (l.foldl (fun m x => m.upsert (key x) (f x)) m).get? k =
      (l.filter fun x => key x = k).foldl (fun a x => some (f x a)) (m.get? k) := by
  induction l generalizing m with
  | nil => rfl
  | cons x l ih =>
      rw [List.foldl_cons, ih, get?_upsert]
      by_cases h : key x = k
      · rw [if_pos h.symm, List.filter_cons_of_pos (by simpa using h), List.foldl_cons, h]
      · rw [if_neg (Ne.symm h), List.filter_cons_of_neg (by simpa using h)]

/-- Of the bindings of one key the last one counts. -/
theorem get?_ofList [DecidableEq κ] (l : List (κ × α)) (k : κ) :
    (ofList l).get? k = (l.filter fun e => e.1 = k).getLast?.map (·.2) := by
  have hlast : ∀ (es : List (κ × α)) (a : Option α),
      es.foldl (fun _ e => some e.2) a = (es.getLast?.map (·.2)).or a := by
    intro es
    induction es with
    | nil => exact fun a => rfl
    | cons e es ih =>
        intro a
        rw [List.foldl_cons, ih, List.getLast?_cons]
        cases es.getLast? <;> rfl
  have hget := get?_foldl_upsert (fun e : κ × α => e.1) (fun e _ => e.2) l ∅ k
  rw [hlast, get?_empty, Option.or_none] at hget
  exact hget

/-! ### The entries of a map -/

omit [Std.TransOrd κ] in
theorem mem_upsertEntries {k : κ} {f : Option α → α} {l : List (κ × α)} {e : κ × α}
    (h : e ∈ upsertEntries k f l) : (e.1 = k ∧ ∃ a, e.2 = f a) ∨ e ∈ l := by
  fun_induction upsertEntries k f l with
  | case1 => exact .inl (by simp_all)
  | case2 k' a rest hc =>
      rcases List.mem_cons.mp h with rfl | h
      · exact .inl ⟨rfl, none, rfl⟩
      · exact .inr h
  | case3 k' a rest hc =>
      rcases List.mem_cons.mp h with rfl | h
      · exact .inl ⟨(Std.LawfulEqOrd.eq_of_compare hc).symm, some a, rfl⟩
      · exact .inr (List.mem_cons_of_mem _ h)
  | case4 k' a rest hc ih =>
      rcases List.mem_cons.mp h with rfl | h
      · exact .inr List.mem_cons_self
      · exact (ih h).imp_right (List.mem_cons_of_mem _)

/-- A map has no bindings but those it is made of. -/
theorem mem_of_mem_ofList {l : List (κ × α)} {e : κ × α} (h : e ∈ (ofList l).entries) : e ∈ l := by
  have hfold : ∀ m : SortedMap κ α, e ∈ (l.foldl (fun m e => m.insert e.1 e.2) m).entries →
      e ∈ m.entries ∨ e ∈ l := by
    clear h
    induction l with
    | nil => exact fun m hm => .inl hm
    | cons d l ih =>
        intro m hm
        rcases ih (m.insert d.1 d.2) hm with hm | hm
        · rcases mem_upsertEntries hm with ⟨hkey, -, hvalue⟩ | hm
          · exact .inr (List.mem_cons.mpr (.inl (Prod.ext hkey hvalue)))
          · exact .inl hm
        · exact .inr (List.mem_cons_of_mem _ hm)
  exact (hfold ∅ h).resolve_left List.not_mem_nil

omit [Std.LawfulEqOrd κ] in
/-- A key above all others goes to the end. -/
theorem upsertEntries_eq_append {k : κ} (f : Option α → α) {l : List (κ × α)}
    (h : ∀ e ∈ l, compare e.1 k = .lt) : upsertEntries k f l = l ++ [(k, f none)] := by
  induction l with
  | nil => rfl
  | cons e l ih =>
      have hgt : compare k e.1 = .gt := Std.OrientedCmp.gt_iff_lt.mpr (h e List.mem_cons_self)
      rw [upsertEntries, hgt]
      simp only [List.cons_append]
      rw [ih fun d hd => h d (List.mem_cons_of_mem _ hd)]

omit [Std.LawfulEqOrd κ] in
/-- A map is made of its own entries. -/
theorem ofList_entries (m : SortedMap κ α) : ofList m.entries = m := by
  have hfold : ∀ (l : List (κ × α)) (n : SortedMap κ α),
      (n.entries ++ l).Pairwise (fun a b => compare a.1 b.1 = .lt) →
      (l.foldl (fun n e => n.insert e.1 e.2) n).entries = n.entries ++ l := by
    intro l
    induction l with
    | nil => exact fun n _ => (List.append_nil _).symm
    | cons e l ih =>
        intro n hsorted
        have hlast : (n.insert e.1 e.2).entries = n.entries ++ [e] :=
          upsertEntries_eq_append _ fun d hd =>
            (List.pairwise_append.mp hsorted).2.2 d hd e List.mem_cons_self
        rw [List.foldl_cons, ih _ (by rw [hlast]; simpa using hsorted), hlast, List.append_assoc]
        rfl
  exact ext (hfold m.entries ∅ m.sorted)

/-! ### Sums over a map -/

theorem sum_upsertEntries (g : α → Nat) (k : κ) (f : Option α → α) (l : List (κ × α))
    (h : l.Pairwise (fun a b => compare a.1 b.1 = .lt)) :
    ((upsertEntries k f l).map fun e => g e.2).sum + ((find? k l).map g).getD 0 =
      (l.map fun e => g e.2).sum + g (f (find? k l)) := by
  fun_induction upsertEntries k f l with
  | case1 => simp [find?]
  | case2 k' a rest hc =>
      rw [find?_eq_none_of_lt h hc]
      simp only [List.map_cons, List.sum_cons, Option.map_none, Option.getD_none]
      omega
  | case3 k' a rest hc =>
      obtain rfl : k = k' := Std.LawfulEqOrd.eq_of_compare hc
      rw [find?_cons_self]
      simp only [List.map_cons, List.sum_cons, Option.map_some, Option.getD_some]
      omega
  | case4 k' a rest hc ih =>
      have hne : k ≠ k' := fun he => by
        rw [Std.LawfulEqOrd.compare_eq_iff_eq.mpr he] at hc
        cases hc
      have hrest := ih (List.pairwise_cons.mp h).2
      rw [find?_cons_of_ne hne]
      simp only [List.map_cons, List.sum_cons]
      omega

/-- Writing a key changes a sum over all values by the new value less the one it replaces. -/
theorem sum_values_upsert (g : α → Nat) (m : SortedMap κ α) (k : κ) (f : Option α → α) :
    ((m.upsert k f).values.map g).sum + ((m.get? k).map g).getD 0 =
      (m.values.map g).sum + g (f (m.get? k)) := by
  have hsum := sum_upsertEntries g k f m.entries m.sorted
  simp only [values, List.map_map]
  exact hsum

/-- Writing a key adds no more than the new value to a sum over all values. -/
theorem sum_values_insert_le (g : α → Nat) (m : SortedMap κ α) (k : κ) (a : α) :
    ((m.insert k a).values.map g).sum ≤ (m.values.map g).sum + g a :=
  Nat.le_trans (Nat.le_add_right _ _) (Nat.le_of_eq (sum_values_upsert g m k fun _ => a))

/-- A map has no more in it than the bindings it is made of. -/
theorem sum_values_ofList_le (g : α → Nat) (l : List (κ × α)) :
    ((ofList l).values.map g).sum ≤ (l.map fun e => g e.2).sum := by
  have hfold : ∀ m : SortedMap κ α, ((l.foldl (fun m e => m.insert e.1 e.2) m).values.map g).sum ≤
      (m.values.map g).sum + (l.map fun e => g e.2).sum := by
    induction l with
    | nil => exact fun m => Nat.le_refl _
    | cons e l ih =>
        intro m
        have hrest := ih (m.insert e.1 e.2)
        have hfirst := sum_values_insert_le g m e.1 e.2
        simp only [List.foldl_cons, List.map_cons, List.sum_cons]
        omega
  have hempty := hfold ∅
  rwa [show ((∅ : SortedMap κ α).values.map g).sum = 0 from rfl, Nat.zero_add] at hempty

/-- A key that is new makes the map longer by one. -/
theorem length_keys_upsert {m : SortedMap κ α} {k : κ} (h : m.get? k = none) (f : Option α → α) :
    (m.upsert k f).keys.length = m.keys.length + 1 := by
  have hsum := sum_values_upsert (fun _ => 1) m k f
  simpa [h, values, keys, Function.comp_def] using hsum

omit [Std.TransOrd κ] in
theorem sum_find? [DecidableEq κ] {keys : List κ} (hkeys : keys.Nodup) (l : List (κ × Nat))
    (hl : l.Pairwise (fun a b => compare a.1 b.1 = .lt)) (h : ∀ e ∈ l, e.1 ∈ keys) :
    (keys.map fun k => (find? k l).getD 0).sum = (l.map (·.2)).sum := by
  induction l with
  | nil => simp [find?]
  | cons e l ih =>
      obtain ⟨k, n⟩ := e
      obtain ⟨hlt, hl⟩ := List.pairwise_cons.mp hl
      have hsplit : ∀ j, (find? j ((k, n) :: l)).getD 0 =
          (if j = k then n else 0) + (find? j l).getD 0 := by
        intro j
        by_cases hj : j = k
        · subst hj
          rw [find?_cons_self, find?_eq_none hlt, if_pos rfl]
          rfl
        · rw [find?_cons_of_ne hj, if_neg hj, Nat.zero_add]
      have hone : (keys.map fun j => if j = k then n else 0).sum = n := by
        rw [List.sum_map_eq_nsmul_single k _ fun j hj _ => if_neg hj,
          List.count_eq_one_of_mem hkeys (h (k, n) List.mem_cons_self), one_nsmul, if_pos rfl]
      rw [List.map_congr_left fun j _ => hsplit j, List.sum_map_add, hone,
        ih hl fun e he => h e (List.mem_cons_of_mem _ he)]
      rfl

omit [Std.TransOrd κ] in
/-- Keys among which are all those of a map: what the map gives for them adds up to the sum of its
values. -/
theorem sum_get? [DecidableEq κ] (m : SortedMap κ Nat) {keys : List κ} (hkeys : keys.Nodup)
    (h : ∀ k ∈ m.keys, k ∈ keys) : (keys.map fun k => (m.get? k).getD 0).sum = m.values.sum :=
  sum_find? hkeys m.entries m.sorted fun _ he => h _ (List.mem_map_of_mem he)

/-! ### The union of two maps -/

section
variable [DecidableEq κ]

omit [Std.TransOrd κ] in
/-- A map has no more than one binding of a key. -/
theorem filter_entries (m : SortedMap κ α) (k : κ) :
    (m.entries.filter fun e => e.1 = k) = ((m.get? k).map (k, ·)).toList := by
  obtain ⟨l, hl⟩ := m
  show _ = ((find? k l).map (k, ·)).toList
  induction l with
  | nil => rfl
  | cons e l ih =>
      obtain ⟨k', b⟩ := e
      obtain ⟨hfirst, hrest⟩ := List.pairwise_cons.mp hl
      by_cases h : k = k'
      · subst h
        have hnil : (l.filter fun e => e.1 = k) = [] := by
          refine List.filter_eq_nil_iff.mpr fun e he hk => ?_
          have hlt := hfirst e he
          simp [of_decide_eq_true hk] at hlt
        rw [List.filter_cons_of_pos (by simp), hnil, find?_cons_self]
        rfl
      · rw [List.filter_cons_of_neg (by simpa using Ne.symm h), find?_cons_of_ne h, ih hrest]

omit [Std.TransOrd κ] in
theorem mem_entries (m : SortedMap κ α) (k : κ) (a : α) :
    (k, a) ∈ m.entries ↔ m.get? k = some a := by
  have hmem : (k, a) ∈ (m.entries.filter fun e => e.1 = k) ↔ (k, a) ∈ m.entries := by
    simp [List.mem_filter]
  rw [← hmem, filter_entries]
  simp

/-- Maps that give the same for every key are equal. -/
theorem ext_get? {m n : SortedMap κ α} (h : ∀ k, m.get? k = n.get? k) : m = n := by
  have hmem : ∀ e : κ × α, e ∈ m.entries ↔ e ∈ n.entries := by
    rintro ⟨k, a⟩
    rw [mem_entries, mem_entries, h]
  have horder : Std.OrientedCmp fun a b : κ × α => compare a.1 b.1 :=
    inferInstanceAs (Std.OrientedCmp (compareOn Prod.fst))
  exact ext (eq_of_increasing m.sorted n.sorted hmem)

/-- Maps with the same keys are equal if what they give for a key is. -/
theorem ext_isSome {m n : SortedMap κ α}
    (hkeys : ∀ k, (m.get? k).isSome = true ↔ (n.get? k).isSome = true)
    (h : ∀ k a b, m.get? k = some a → n.get? k = some b → a = b) : m = n := by
  refine ext_get? fun k => ?_
  have hkey := hkeys k
  cases ha : m.get? k with
  | none =>
      rw [ha] at hkey
      exact (Option.not_isSome_iff_eq_none.mp (hkey.not.mp Bool.false_ne_true)).symm
  | some a =>
      rw [ha] at hkey
      obtain ⟨b, hb⟩ := Option.isSome_iff_exists.mp (hkey.mp rfl)
      rw [hb, h k a b ha hb]

/-- Binding a key to what a write would bind it to is that write. -/
theorem insert_get? (m : SortedMap κ α) (k : κ) (f : Option α → α) :
    m.insert k (f (m.get? k)) = m.upsert k f := by
  refine ext_get? fun j => ?_
  rw [insert, get?_upsert, get?_upsert]

/-- The bindings of two maps together; a key that is bound in both is bound to `f` of the two
values. -/
def unionWith (f : α → α → α) (m n : SortedMap κ α) : SortedMap κ α :=
  n.entries.foldl (fun m e => m.upsert e.1 fun a => a.elim e.2 (f · e.2)) m

theorem get?_unionWith (f : α → α → α) (m n : SortedMap κ α) (k : κ) :
    (m.unionWith f n).get? k = (m.get? k).merge f (n.get? k) := by
  unfold unionWith
  rw [get?_foldl_upsert (fun e : κ × α => e.1) fun e a => a.elim e.2 (f · e.2), filter_entries]
  cases m.get? k <;> cases n.get? k <;> rfl

omit [DecidableEq κ] [Std.LawfulEqOrd κ] in
@[simp] theorem unionWith_empty (f : α → α → α) (m : SortedMap κ α) : m.unionWith f ∅ = m := rfl

theorem unionWith_comm {f : α → α → α} {m n : SortedMap κ α}
    (h : ∀ k a b, m.get? k = some a → n.get? k = some b → f a b = f b a) :
    m.unionWith f n = n.unionWith f m := by
  refine ext_get? fun k => ?_
  rw [get?_unionWith, get?_unionWith]
  cases hm : m.get? k with
  | none => cases n.get? k <;> rfl
  | some a =>
      cases hn : n.get? k with
      | none => rfl
      | some b => exact congrArg some (h k a b hm hn)

/-- A key may be written into the second map or into the union, if the writing of a value goes
through `f`. -/
theorem unionWith_upsert {f : α → α → α} {g : Option α → α} (m n : SortedMap κ α) (k : κ)
    (hsome : ∀ a b, f a (g (some b)) = g (some (f a b))) (hnone : ∀ a, f a (g none) = g (some a)) :
    m.unionWith f (n.upsert k g) = (m.unionWith f n).upsert k g := by
  refine ext_get? fun j => ?_
  rw [get?_unionWith, get?_upsert, get?_upsert]
  by_cases h : j = k
  · subst h
    rw [if_pos rfl, if_pos rfl, get?_unionWith]
    cases m.get? j with
    | none => cases n.get? j <;> rfl
    | some a =>
        cases n.get? j with
        | none => exact congrArg some (hnone a)
        | some b => exact congrArg some (hsome a b)
  · rw [if_neg h, if_neg h, get?_unionWith]

end

/-! ### New values -/

section
variable {β : Type v} (f : α → β)

/-- The map with new values for the same keys. -/
def mapValues (m : SortedMap κ α) : SortedMap κ β where
  entries := m.entries.map fun e => (e.1, f e.2)
  sorted := List.pairwise_map.mpr m.sorted

omit [Std.LawfulEqOrd κ] [Std.TransOrd κ] in
theorem get?_mapValues (m : SortedMap κ α) (k : κ) :
    (m.mapValues f).get? k = (m.get? k).map f := by
  have hfind : ∀ l : List (κ × α), find? k (l.map fun e => (e.1, f e.2)) = (find? k l).map f := by
    intro l
    induction l with
    | nil => rfl
    | cons e l ih =>
        rw [List.map_cons, find?, find?, ih]
        split
        · rfl
        · rfl
  exact hfind m.entries

omit [Std.LawfulEqOrd κ] [Std.TransOrd κ] in
theorem values_mapValues (m : SortedMap κ α) : (m.mapValues f).values = m.values.map f := by
  simp [values, mapValues]

theorem mapValues_insert [DecidableEq κ] (m : SortedMap κ α) (k : κ) (a : α) :
    (m.insert k a).mapValues f = (m.mapValues f).insert k (f a) := by
  refine ext_get? fun j => ?_
  rw [get?_mapValues, insert, insert, get?_upsert, get?_upsert, get?_mapValues]
  split
  · rfl
  · rfl

theorem mapValues_of_eq [DecidableEq κ] {f : α → α} {m : SortedMap κ α}
    (h : ∀ k a, m.get? k = some a → f a = a) : m.mapValues f = m := by
  refine ext_get? fun k => ?_
  rw [get?_mapValues]
  cases hk : m.get? k with
  | none => rfl
  | some a => exact congrArg some (h k a hk)

end

/-! ### New keys in the same order -/

section
variable {κ' : Type*} [Ord κ'] {f : κ → κ'}

omit [Std.LawfulEqOrd κ] [Std.TransOrd κ] in
theorem upsertEntries_map (h : ∀ a b, compare (f a) (f b) = compare a b) (k : κ)
    (g : Option α → α) (l : List (κ × α)) :
    upsertEntries (f k) g (l.map fun e => (f e.1, e.2)) =
      (upsertEntries k g l).map fun e => (f e.1, e.2) := by
  induction l with
  | nil => rfl
  | cons e l ih =>
      rw [List.map_cons, upsertEntries, upsertEntries, h]
      cases compare k e.1 with
      | lt => rfl
      | eq => rfl
      | gt => rw [ih, List.map_cons]

/-- The map with new keys, which are in the same order as the old ones. -/
def mapKeys (f : κ → κ') (h : ∀ a b, compare (f a) (f b) = compare a b) (m : SortedMap κ α) :
    SortedMap κ' α where
  entries := m.entries.map fun e => (f e.1, e.2)
  sorted := List.pairwise_map.mpr (m.sorted.imp fun hlt => (h _ _).trans hlt)

omit [Std.LawfulEqOrd κ] in
theorem mapKeys_upsert [Std.TransOrd κ'] (h : ∀ a b, compare (f a) (f b) = compare a b)
    (m : SortedMap κ α) (k : κ) (g : Option α → α) :
    (m.upsert k g).mapKeys f h = (m.mapKeys f h).upsert (f k) g :=
  ext (upsertEntries_map h k g m.entries).symm

end

/-! ### New keys in any order -/

section
variable {κ' : Type*} [Ord κ'] [Std.TransOrd κ'] [Std.LawfulEqOrd κ'] [DecidableEq κ]
  [DecidableEq κ'] {f : κ → κ'}

omit [Std.LawfulEqOrd κ] [DecidableEq κ] in
theorem nodup_entries (m : SortedMap κ α) : m.entries.Nodup :=
  m.sorted.imp fun {a b} hlt hab => by simp [hab, Std.ReflCmp.compare_self] at hlt

/-- What bindings with keys renamed one to one give for a renamed key. -/
theorem get?_ofList_rename {l : List (κ × α)} (h : ∀ a ∈ l, ∀ b ∈ l, f a.1 = f b.1 → a.1 = b.1)
    {d : κ × α} (hd : d ∈ l) :
    (ofList (l.map fun e => (f e.1, e.2))).get? (f d.1) = (ofList l).get? d.1 := by
  have hfilter : (l.filter fun e => f e.1 = f d.1) = l.filter fun e => e.1 = d.1 := by
    refine List.filter_congr fun e he => ?_
    exact decide_eq_decide.mpr ⟨h e he d hd, congrArg f⟩
  rw [get?_ofList, get?_ofList, List.filter_map, List.getLast?_map, Option.map_map]
  exact congrArg (fun es => Option.map _ (List.getLast? es)) hfilter

/-- The map of bindings whose keys are renamed one to one has the renamed entries. -/
theorem ofList_rename_perm {l : List (κ × α)}
    (h : ∀ a ∈ l, ∀ b ∈ l, f a.1 = f b.1 → a.1 = b.1) :
    (ofList (l.map fun e => (f e.1, e.2))).entries.Perm
      ((ofList l).entries.map fun e => (f e.1, e.2)) := by
  have hinj : ∀ d ∈ (ofList l).entries, ∀ e ∈ (ofList l).entries,
      (f d.1, d.2) = (f e.1, e.2) → d = e := by
    intro d hd e he hde
    obtain ⟨hkey, hvalue⟩ := Prod.mk.inj hde
    exact Prod.ext (h d (mem_of_mem_ofList hd) e (mem_of_mem_ofList he) hkey) hvalue
  refine (List.perm_ext_iff_of_nodup (nodup_entries _)
    ((nodup_entries _).map_on hinj)).mpr fun ⟨k, a⟩ => ⟨fun hmem => ?_, fun hmem => ?_⟩
  · obtain ⟨d, hd, hkey⟩ := List.mem_map.mp (mem_of_mem_ofList hmem)
    obtain ⟨rfl, rfl⟩ := Prod.mk.inj hkey
    rw [mem_entries, get?_ofList_rename h hd, ← mem_entries] at hmem
    exact List.mem_map.mpr ⟨(d.1, d.2), hmem, rfl⟩
  · obtain ⟨d, hd, hkey⟩ := List.mem_map.mp hmem
    obtain ⟨rfl, rfl⟩ := Prod.mk.inj hkey
    rw [mem_entries, get?_ofList_rename h (mem_of_mem_ofList hd), ← mem_entries]
    exact hd

end

/-! ### Moving keys on -/

/-- The map with every key moved on by `n`. -/
def shift (n : Nat) (m : SortedMap Nat α) : SortedMap Nat α where
  entries := m.entries.map fun e => (e.1 + n, e.2)
  sorted := by
    refine List.pairwise_map.mpr (m.sorted.imp fun {a b} h => ?_)
    rw [Nat.compare_eq_lt] at h ⊢
    omega

theorem get?_shift (n : Nat) (m : SortedMap Nat α) (k : Nat) :
    (m.shift n).get? k = if n ≤ k then m.get? (k - n) else none := by
  show find? k (m.entries.map fun e => (e.1 + n, e.2)) =
    if n ≤ k then find? (k - n) m.entries else none
  induction m.entries with
  | nil => simp [find?]
  | cons e l ih =>
      rw [List.map_cons]
      by_cases h : k = e.1 + n
      · subst h
        rw [find?_cons_self, if_pos (by omega), Nat.add_sub_cancel, find?_cons_self]
      · rw [find?_cons_of_ne h, ih]
        split
        · rw [find?_cons_of_ne (by omega)]
        · rfl

theorem shift_upsert (n : Nat) (m : SortedMap Nat α) (k : Nat) (f : Option α → α) :
    (m.upsert k f).shift n = (m.shift n).upsert (k + n) f := by
  have horder : ∀ a b : Nat, compare (a + n) (b + n) = compare a b := by
    intro a b
    simp only [Nat.compare_eq_ite_lt, Nat.add_lt_add_iff_right]
  exact ext (upsertEntries_map horder k f m.entries).symm

end SortedMap

end DecisionScore
