import DecisionScore.Grammar.Item

/-! # What the tables say of a grammar

A production that `Table.openings` lists under a symbol starts with that symbol.  If the start
symbol of the grammar is in no production, then its own productions are listed nowhere but where
the start symbol itself is expected. -/

namespace DecisionScore.Grammar

variable {κ ρ : Type}

theorem settle_induction {α : Type} [BEq α] {f : α → α} {P : α → Prop} (hf : ∀ a, P a → P (f a))
    (fuel : Nat) {a : α} (h : P a) : P (settle f fuel a) := by
  induction fuel generalizing a with
  | zero => exact h
  | succ fuel ih =>
      simp only [settle]
      split
      · exact h
      · exact ih (hf a h)

/-- The symbol is in none of the productions. -/
def Unused (productions : Array (Production κ ρ)) (x : Sym) : Prop :=
  ∀ p ∈ productions, ∀ i, p.symbol? i ≠ some x

namespace Table

/-! ### Left edges -/

theorem mem_addNew {α : Type} [BEq α] {a b : α} {l : List α} (h : b ∈ addNew a l) :
    b = a ∨ b ∈ l := by
  unfold addNew at h
  split at h
  · exact .inr h
  · exact List.mem_cons.mp h

/-- Lists of nonterminals that are all first symbols of productions. -/
def AreFirst (productions : Array (Production κ ρ)) (edges : Array (List (Nat × Option TokenSet))) :
    Prop :=
  ∀ l ∈ edges, ∀ e ∈ l, ∃ p ∈ productions, p.symbol? 0 = some (.node e.1)

/-- The nonterminals at left edges are first symbols of productions. -/
theorem leftEdges_spec (productions : Array (Production κ ρ)) (first : Array TokenSet) (n : Nat)
    {e : Nat × Option TokenSet} (h : e ∈ (leftEdges productions first).getD n []) :
    ∃ p ∈ productions, p.symbol? 0 = some (.node e.1) := by
  have hall : AreFirst productions (leftEdges productions first) := by
    unfold leftEdges
    rw [← Array.foldl_toList]
    refine List.foldlRecOn (motive := AreFirst productions) _ _ ?_ ?_
    · intro l hl e he
      obtain ⟨_, _, rfl⟩ := Array.mem_map.mp hl
      cases he
    · intro acc hacc p hp
      split
      · rename_i m hm
        intro l hl e he
        obtain ⟨i, hi⟩ := Array.getElem?_of_mem hl
        rw [Array.getElem?_modify] at hi
        split at hi
        · obtain ⟨l', hl', rfl⟩ := Option.map_eq_some_iff.mp hi
          rcases mem_addNew he with rfl | he
          · exact ⟨p, Array.mem_toList_iff.mp hp, hm⟩
          · exact hacc l' (Array.mem_of_getElem? hl') e he
        · exact hacc l (Array.mem_of_getElem? hi) e he
      · exact hacc
  rw [Array.getD_eq_getD_getElem?] at h
  cases hl : (leftEdges productions first)[n]? with
  | none => simp [hl] at h
  | some l => exact hall l (Array.mem_of_getElem? hl) e (by simpa [hl] using h)

/-! ### Reach -/

/-- A nonterminal is not reached. -/
def Reach.Avoids (r : Reach) (n : Nat) : Prop := r.getD n none = none

theorem Reach.Avoids.add {r : Reach} {n m : Nat} (h : r.Avoids n) (hm : m ≠ n) (f : TokenSet)
    (i : Bool) : (r.add m f i).Avoids n := by
  unfold Avoids Reach.add at *
  rw [Array.getD_eq_getD_getElem?] at h ⊢
  rw [Array.getElem?_modify, if_neg hm]
  exact h

/-- What is at no left edge is not reached in one round either. -/
theorem Reach.Avoids.grow {edges : Array (List (Nat × Option TokenSet))} {n : Nat}
    (hedges : ∀ m, ∀ e ∈ edges.getD m [], e.1 ≠ n) {r : Reach} (h : r.Avoids n) :
    (growReach edges r).Avoids n := by
  unfold growReach
  rw [← Array.foldl_toList]
  refine List.foldlRecOn (motive := fun r => Reach.Avoids r n) _ _ h ?_
  rintro acc hacc ⟨entry, m⟩ -
  cases entry with
  | none => exact hacc
  | some x =>
      refine List.foldlRecOn (motive := fun r => Reach.Avoids r n) _ _ hacc ?_
      rintro acc hacc ⟨m', follow⟩ he
      have hne := hedges m _ he
      dsimp only
      split
      · exact hacc.add hne _ _
      · exact hacc.add hne _ _
      · exact hacc

/-! ### Openings -/

/-- A production that is listed under a symbol starts with it, and its nonterminal is reached. -/
theorem openingsOf_spec (productions : Array (Production κ ρ)) (reach : Reach) {x : Sym}
    {o : Opening} (h : o ∈ (openingsOf productions reach).getD x []) :
    ∃ p, productions[o.production]? = some p ∧ p.symbol? 0 = some x ∧ ¬ reach.Avoids p.head := by
  unfold openingsOf at h
  rw [← Array.foldr_toList] at h
  revert x o
  refine List.foldrRecOn (motive := fun m : Std.HashMap Sym (List Opening) =>
    ∀ {x o}, o ∈ m.getD x [] → ∃ p, productions[o.production]? = some p ∧
      p.symbol? 0 = some x ∧ ¬ reach.Avoids p.head) _ _ ?_ ?_
  · intro x o h
    simp at h
  · rintro acc hacc ⟨p, i⟩ hp x o h
    have hpi : productions[i]? = some p :=
      Array.mk_mem_zipIdx_iff_getElem?.mp (Array.mem_toList_iff.mp hp)
    dsimp only at h
    split at h
    · rename_i lookahead inherits s hreach hs
      rw [Std.HashMap.getD_insert] at h
      split at h
      · rename_i hx
        obtain rfl : s.symbol = x := by simpa using hx
        rcases List.mem_cons.mp h with rfl | h
        · refine ⟨p, hpi, ?_, ?_⟩
          · rw [Production.symbol?, hs]
            rfl
          · unfold Reach.Avoids
            rw [hreach]
            exact Option.some_ne_none _
        · exact hacc h
      · exact hacc h
    · exact hacc h

/-- What a table lists as started where a nonterminal other than the start symbol is expected. -/
theorem openings_spec {productions : Array (Production κ ρ)} {shown : Array (Option κ)}
    {firstRepetition start n : Nat} (hstart : Unused productions (.node start)) (hn : n ≠ start)
    {m : Std.HashMap Sym (List Opening)}
    (hm : (build productions shown firstRepetition start).openings[n]? = some m) {x : Sym}
    {o : Opening} (ho : o ∈ m.getD x []) :
    ∃ p, productions[o.production]? = some p ∧ p.symbol? 0 = some x ∧ p.head ≠ start := by
  simp only [build, Array.getElem?_map, Option.map_eq_some_iff] at hm
  obtain ⟨n', hn', rfl⟩ := hm
  obtain ⟨p, hp, hx, hreach⟩ := openingsOf_spec productions _ ho
  refine ⟨p, hp, hx, ?_⟩
  rintro rfl
  refine hreach (settle_induction (P := fun r => Reach.Avoids r p.head) ?_ _ ?_)
  · intro r hr
    refine hr.grow ?_
    intro k e he heq
    obtain ⟨q, hq, hq0⟩ := leftEdges_spec _ _ k he
    exact hstart q hq 0 (heq ▸ hq0)
  · have hnn : n' = n := by
      rw [Array.getElem?_range] at hn'
      split at hn'
      · exact (Option.some.inj hn').symm
      · cases hn'
    unfold Reach.Avoids
    rw [Array.getD_eq_getD_getElem?, Array.getElem?_modify, if_neg (hnn ▸ hn)]
    rw [Array.getElem?_replicate]
    split <;> rfl

end Table

end DecisionScore.Grammar
