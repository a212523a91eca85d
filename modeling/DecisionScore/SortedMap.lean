/-! # Maps with a fixed order of keys

A finite map is the list of its entries in strictly increasing key order, so two maps with the
same bindings are equal, and every listing of a map comes out in one order.  All writing goes
through `upsert`, which keeps the order (`pairwise_upsertEntries`). -/

namespace DecisionScore

universe u v

/-- A finite map, stored as its entries in strictly increasing key order. -/
structure SortedMap (κ : Type u) (α : Type v) [Ord κ] where
  /-- The bindings in key order. -/
  entries : List (κ × α)
  /-- No key is repeated, and keys increase. -/
  sorted : entries.Pairwise (fun a b => compare a.1 b.1 = .lt)

namespace SortedMap

variable {κ : Type u} {α : Type v} [Ord κ]

@[ext] theorem ext {m n : SortedMap κ α} (h : m.entries = n.entries) : m = n := by
  cases m; cases n; cases h; rfl

instance [DecidableEq κ] [DecidableEq α] : DecidableEq (SortedMap κ α) := fun m n =>
  if h : m.entries = n.entries then isTrue (ext h) else isFalse (fun e => h (e ▸ rfl))

/-- The map without bindings. -/
def empty : SortedMap κ α := ⟨[], .nil⟩

instance : EmptyCollection (SortedMap κ α) := ⟨empty⟩

instance : Inhabited (SortedMap κ α) := ⟨empty⟩

/-- Whether there is no binding. -/
def isEmpty (m : SortedMap κ α) : Bool := m.entries.isEmpty

/-- The keys in increasing order. -/
def keys (m : SortedMap κ α) : List κ := m.entries.map (·.1)

/-- The values, in the order of their keys. -/
def values (m : SortedMap κ α) : List α := m.entries.map (·.2)

/-- The value bound to `k` in a list of entries. -/
def find? (k : κ) : List (κ × α) → Option α
  | [] => none
  | (k', a) :: rest => if compare k k' = .eq then some a else find? k rest

/-- The value bound to `k`. -/
def get? (m : SortedMap κ α) (k : κ) : Option α := find? k m.entries

/-- Rebinds `k` to `f` of what it was bound to, at its place in the order. -/
def upsertEntries (k : κ) (f : Option α → α) : List (κ × α) → List (κ × α)
  | [] => [(k, f none)]
  | (k', a) :: rest =>
    match compare k k' with
    | .lt => (k, f none) :: (k', a) :: rest
    | .eq => (k', f (some a)) :: rest
    | .gt => (k', a) :: upsertEntries k f rest

/-- A key after `upsertEntries` is the new key or an old one. -/
theorem mem_keys_upsertEntries {k x : κ} {f : Option α → α} {l : List (κ × α)}
    (h : x ∈ (upsertEntries k f l).map (·.1)) : x = k ∨ x ∈ l.map (·.1) := by
  fun_induction upsertEntries k f l with
  | case1 => simpa using h
  | case2 k' a rest hc => simpa using h
  | case3 k' a rest hc => right; simpa using h
  | case4 k' a rest hc ih =>
    rcases List.mem_cons.mp h with h | h
    · right; simp only [List.map_cons, List.mem_cons]; left; exact h
    · rcases ih h with h | h
      · left; exact h
      · right; simp only [List.map_cons, List.mem_cons]; right; exact h

/-- Writing keeps the keys in strictly increasing order. -/
theorem pairwise_upsertEntries [Std.TransOrd κ] (k : κ) (f : Option α → α) (l : List (κ × α))
    (h : l.Pairwise (fun a b => compare a.1 b.1 = .lt)) :
    (upsertEntries k f l).Pairwise (fun a b => compare a.1 b.1 = .lt) := by
  fun_induction upsertEntries k f l with
  | case1 => simp
  | case2 k' a rest hc =>
    refine List.pairwise_cons.mpr ⟨?_, h⟩
    intro b hb
    rcases List.mem_cons.mp hb with rfl | hb
    · exact hc
    · exact Std.TransCmp.lt_trans hc ((List.pairwise_cons.mp h).1 b hb)
  | case3 k' a rest hc =>
    exact List.pairwise_cons.mpr ⟨(List.pairwise_cons.mp h).1, (List.pairwise_cons.mp h).2⟩
  | case4 k' a rest hc ih =>
    refine List.pairwise_cons.mpr ⟨?_, ih (List.pairwise_cons.mp h).2⟩
    intro b hb
    have hk : b.1 = k ∨ b.1 ∈ rest.map (·.1) :=
      mem_keys_upsertEntries (List.mem_map_of_mem hb)
    rcases hk with hk | hk
    · rw [hk]; exact Std.OrientedCmp.gt_iff_lt.mp hc
    · obtain ⟨c, hc', hce⟩ := List.mem_map.mp hk
      rw [← hce]; exact (List.pairwise_cons.mp h).1 c hc'

variable [Std.TransOrd κ]

/-- Rebinds `k` to `f` of what it was bound to. -/
def upsert (m : SortedMap κ α) (k : κ) (f : Option α → α) : SortedMap κ α :=
  ⟨upsertEntries k f m.entries, pairwise_upsertEntries k f m.entries m.sorted⟩

/-- Binds `k` to `a`, whatever it was bound to. -/
def insert (m : SortedMap κ α) (k : κ) (a : α) : SortedMap κ α := m.upsert k fun _ => a

/-- The map of a list of bindings; of two bindings of one key the later one counts. -/
def ofList (l : List (κ × α)) : SortedMap κ α := l.foldl (fun m e => m.insert e.1 e.2) ∅

end SortedMap

end DecisionScore
