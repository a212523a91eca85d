import DecisionScore.Grammar.Run
import DecisionScore.Proofs.Grammar.Openings

/-! # Readings follow the grammar

The parts on the stack of a reading are phrases of the grammar, whatever the lookaheads, the
precedences and the preferences do: a production is completed only over parts that match its
steps.  So any property of parts that holds of tokens and passes from the parts of a production to
the whole (`Closed`) holds of all that is ever on a stack, and the tree of a text is made from such
a part of the start symbol (`parse?_spec`).  What is known of the tokens may rest on the places they
are read at, as long as reading keeps to such places. -/

namespace DecisionScore.Grammar

variable {κ ρ σ : Type}

/-! ### Kernels -/

/-- What a table must say of its grammar. -/
structure Table.WellFormed (t : Table κ ρ) : Prop where
  /-- The start symbol is in no production. -/
  start_unused : Unused t.productions (.node t.start)
  /-- What is listed under a symbol starts with it, and is no production of the start symbol. -/
  openings : ∀ {n m x o}, n ≠ t.start → t.openings[n]? = some m → o ∈ m.getD x [] →
    ∃ p, t.productions[o.production]? = some p ∧ p.symbol? 0 = some x ∧ p.head ≠ t.start

theorem Table.wellFormed_build {productions : Array (Production κ ρ)} {shown : Array (Option κ)}
    {firstRepetition start : Nat} (h : Unused productions (.node start)) :
    (build productions shown firstRepetition start).WellFormed :=
  ⟨h, fun hn hm ho => openings_spec h hn hm ho⟩

/-- The symbols of a production. -/
def Production.symbols (p : Production κ ρ) : List Sym := p.steps.toList.map (·.symbol)

/-- The symbols of the first steps of a production, the last one first. -/
def Production.done (p : Production κ ρ) (dot : Nat) : List Sym :=
  ((p.steps.toList.take dot).map (·.symbol)).reverse

theorem Production.length_symbols (p : Production κ ρ) : p.symbols.length = p.steps.size := by
  simp [symbols]

theorem Production.done_size (p : Production κ ρ) : p.done p.steps.size = p.symbols.reverse := by
  have hall : p.steps.toList.take p.steps.size = p.steps.toList := List.take_of_length_le (by simp)
  rw [done, hall, symbols]

/-- The steps that an item has done are the last symbols read; an item of the start symbol has
done all of them. -/
def Item.Fits (t : Table κ ρ) (xs : List Sym) (i : Item) : Prop :=
  ∃ p, t.productions[i.production]? = some p ∧ i.dot ≤ p.steps.size ∧ p.done i.dot <+: xs ∧
    (p.head = t.start → xs.length = i.dot)

/-- All items of a kernel fit. -/
def Kernel.Fits (t : Table κ ρ) (xs : List Sym) (k : Kernel) : Prop := ∀ i ∈ k, i.Fits t xs

theorem Kernel.Fits.merge {t : Table κ ρ} {xs : List Sym} {k l : Kernel} (hk : Kernel.Fits t xs k)
    (hl : Kernel.Fits t xs l) : Kernel.Fits t xs (k.merge l) := by
  fun_induction Kernel.merge k l with
  | case1 l => exact hl
  | case2 k => exact hk
  | case3 a k b l hab ih =>
      have hrest := ih (fun i hi => hk i (List.mem_cons_of_mem a hi)) hl
      intro i hi
      rcases List.mem_cons.mp hi with rfl | hi
      · exact hk i List.mem_cons_self
      · exact hrest i hi
  | case4 a k b l hab hba ih =>
      have hrest := ih hk (fun i hi => hl i (List.mem_cons_of_mem b hi))
      intro i hi
      rcases List.mem_cons.mp hi with rfl | hi
      · exact hl i List.mem_cons_self
      · exact hrest i hi
  | case5 a k b l hab hba ih =>
      have hrest := ih (fun i hi => hk i (List.mem_cons_of_mem a hi))
        (fun i hi => hl i (List.mem_cons_of_mem b hi))
      intro i hi
      rcases List.mem_cons.mp hi with rfl | hi
      · exact hk a List.mem_cons_self
      · exact hrest i hi

theorem Table.next?_eq {t : Table κ ρ} {i : Item} {p : Production κ ρ}
    (h : t.productions[i.production]? = some p) : t.next? i = p.steps[i.dot]? := by
  unfold next? stepsOf
  rw [h]

theorem Production.done_succ {p : Production κ ρ} {dot : Nat} {s : Step Sym κ ρ}
    (h : p.steps[dot]? = some s) : p.done (dot + 1) = s.symbol :: p.done dot := by
  have hlist : p.steps.toList[dot]? = some s := by simpa using h
  unfold done
  rw [List.take_add_one, hlist]
  simp

/-- An item over one more symbol. -/
theorem Item.Fits.step {t : Table κ ρ} {xs : List Sym} {i : Item} {s : Step Sym κ ρ}
    (h : i.Fits t xs) (hs : t.next? i = some s) :
    Item.Fits t (s.symbol :: xs) { i with dot := i.dot + 1 } := by
  obtain ⟨p, hp, -, hdone, hstart⟩ := h
  rw [Table.next?_eq hp] at hs
  refine ⟨p, hp, ?_, ?_, ?_⟩
  · have hlt := (Array.getElem?_eq_some_iff.mp hs).1
    show i.dot + 1 ≤ _
    omega
  · show p.done (i.dot + 1) <+: _
    rw [Production.done_succ hs]
    exact (List.cons_prefix_cons).mpr ⟨rfl, hdone⟩
  · intro hh
    rw [List.length_cons, hstart hh]

theorem Item.fits_opening {t : Table κ ρ} {p : Production κ ρ} {x : Sym} {xs : List Sym}
    {n : Nat} {lookahead : TokenSet} (hp : t.productions[n]? = some p)
    (hx : p.symbol? 0 = some x) (hstart : p.head ≠ t.start) :
    Item.Fits t (x :: xs) ⟨n, 1, lookahead⟩ := by
  obtain ⟨s, hs, rfl⟩ := Option.map_eq_some_iff.mp hx
  refine ⟨p, hp, (Array.getElem?_eq_some_iff.mp hs).1, ?_, fun h => absurd h hstart⟩
  show p.done (0 + 1) <+: _
  rw [Production.done_succ hs]
  exact (List.cons_prefix_cons).mpr ⟨rfl, List.nil_prefix⟩

theorem Table.mem_addExpected {n m : Nat} {follow f : TokenSet} {l : List (Nat × TokenSet)}
    (h : (m, f) ∈ addExpected n follow l) : m = n ∨ ∃ f', (m, f') ∈ l := by
  induction l with
  | nil => exact .inl (congrArg Prod.fst (List.mem_singleton.mp h))
  | cons e l ih =>
      obtain ⟨m', f'⟩ := e
      rw [addExpected] at h
      split at h
      · rename_i hm
        rcases List.mem_cons.mp h with he | h
        · left
          exact (congrArg Prod.fst he).trans hm
        · exact .inr ⟨f, List.mem_cons_of_mem _ h⟩
      · rcases List.mem_cons.mp h with he | h
        · exact .inr ⟨f, he ▸ List.mem_cons_self⟩
        · rcases ih h with hm | ⟨f'', hf⟩
          · exact .inl hm
          · exact .inr ⟨f'', List.mem_cons_of_mem _ hf⟩

/-- What a kernel expects is the next symbol of one of its items. -/
theorem Table.expectedNodes_spec {t : Table κ ρ} {k : Kernel} {n : Nat} {f : TokenSet}
    (h : (n, f) ∈ t.expectedNodes k) : ∃ i ∈ k, ∃ s, t.next? i = some s ∧ s.symbol = .node n := by
  have hall : ∀ e ∈ t.expectedNodes k, ∃ i ∈ k, ∃ s, t.next? i = some s ∧ s.symbol = .node e.1 := by
    unfold expectedNodes
    refine List.foldlRecOn (motive := fun l : List (Nat × TokenSet) =>
      ∀ e ∈ l, ∃ i ∈ k, ∃ s, t.next? i = some s ∧ s.symbol = .node e.1) _ _ ?_ ?_
    · intro e he
      cases he
    · intro acc hacc i hi e he
      split at he
      · rename_i m _ _ _ _ hs
        rcases mem_addExpected he with hm | ⟨f', hf⟩
        · exact ⟨i, hi, _, hs, by rw [hm]⟩
        · exact hacc (e.1, f') hf
      · exact hacc e he
  exact hall _ h

/-- A kernel over one more symbol. -/
theorem Kernel.Fits.advance {t : Table κ ρ} (ht : t.WellFormed) {xs : List Sym} {k : Kernel}
    (hk : Kernel.Fits t xs k) (x : Sym) : Kernel.Fits t (x :: xs) (t.advance k x) := by
  unfold Table.advance
  refine List.foldlRecOn (motive := Kernel.Fits t (x :: xs)) _ _ ?_ ?_
  · intro j hj
    obtain ⟨i, hi, hij⟩ := List.mem_filterMap.mp hj
    split at hij
    · rename_i s hs
      split at hij
      · rename_i hx
        obtain rfl := Option.some.inj hij
        exact hx ▸ (hk i hi).step hs
      · cases hij
    · cases hij
  · rintro acc hacc ⟨n, follow⟩ hn
    obtain ⟨i, hi, s, hs, hsymbol⟩ := Table.expectedNodes_spec hn
    obtain ⟨p, hp, -⟩ := hk i hi
    have hne : n ≠ t.start := by
      rintro rfl
      rw [Table.next?_eq hp] at hs
      refine ht.start_unused p (Array.mem_of_getElem? hp) i.dot ?_
      rw [Production.symbol?, hs, Option.map_some, hsymbol]
    refine hacc.merge ?_
    intro j hj
    obtain ⟨o, ho, rfl⟩ := List.mem_map.mp hj
    cases hm : t.openings[n]? with
    | none => simp [hm] at ho
    | some m =>
        rw [hm] at ho
        obtain ⟨q, hq, hx, hstart⟩ := ht.openings hne hm ho
        exact Item.fits_opening hq hx hstart

theorem Table.fits_startKernel (t : Table κ ρ) (endToken : Nat) :
    Kernel.Fits t [] (t.startKernel endToken) := by
  intro i hi
  unfold startKernel at hi
  obtain ⟨⟨p, n⟩, hp, rfl⟩ := List.mem_map.mp hi
  rw [Array.mem_toList_iff, Array.mem_filter] at hp
  exact ⟨p, Array.mk_mem_zipIdx_iff_getElem?.mp hp.1, Nat.zero_le _, List.nil_prefix, fun _ => rfl⟩

/-! ### Stacks -/

/-- Parts that are good for the given symbols, in order, with extra parts between them. -/
inductive Matches (good : Sym → Part κ ρ → Prop) (extra : Part κ ρ → Prop) :
    List Sym → List (Part κ ρ) → Prop where
  | nil : Matches good extra [] []
  | extra {xs : List Sym} {p : Part κ ρ} {ps : List (Part κ ρ)} (hp : p.isExtra = true)
      (he : extra p) (h : Matches good extra xs ps) : Matches good extra xs (p :: ps)
  | part {x : Sym} {xs : List Sym} {p : Part κ ρ} {ps : List (Part κ ρ)} (hp : p.isExtra = false)
      (hg : good x p) (h : Matches good extra xs ps) : Matches good extra (x :: xs) (p :: ps)

/-- Parts that neither begin nor end with an extra one. -/
def Tight (ps : List (Part κ ρ)) : Prop :=
  (∀ p ∈ ps.head?, p.isExtra = false) ∧ ∀ p ∈ ps.getLast?, p.isExtra = false

theorem Matches.isExtra_of_nil {good : Sym → Part κ ρ → Prop} {extra : Part κ ρ → Prop}
    {ps : List (Part κ ρ)} (h : Matches good extra [] ps) : ∀ p ∈ ps, p.isExtra = true := by
  generalize hxs : ([] : List Sym) = xs at h
  induction h with
  | nil => simp
  | extra hp _ _ ih =>
      intro q hq
      rcases List.mem_cons.mp hq with rfl | hq
      · exact hp
      · exact ih hxs q hq
  | part => cases hxs

/-- Tight parts for one symbol are one part. -/
theorem Matches.eq_single {good : Sym → Part κ ρ → Prop} {extra : Part κ ρ → Prop} {x : Sym}
    {ps : List (Part κ ρ)} (h : Matches good extra [x] ps) (ht : Tight ps) :
    ∃ p, ps = [p] ∧ p.isExtra = false ∧ good x p := by
  cases h with
  | extra hp _ _ =>
      rw [ht.1 _ rfl] at hp
      cases hp
  | @part _ _ p ps hp hg h =>
      by_cases hps : ps = []
      · exact ⟨p, by rw [hps], hp, hg⟩
      · have hlast : (ps.getLast hps).isExtra = false := by
          refine ht.2 _ ?_
          rw [List.getLast?_cons_of_ne_nil hps, List.getLast?_eq_some_getLast hps]
          exact rfl
        rw [h.isExtra_of_nil _ (List.getLast_mem hps)] at hlast
        cases hlast

/-- Tight parts for some symbols begin with the part of the first one. -/
theorem Matches.exists_cons {good : Sym → Part κ ρ → Prop} {extra : Part κ ρ → Prop} {x : Sym}
    {xs : List Sym} {ps : List (Part κ ρ)} (h : Matches good extra (x :: xs) ps) (ht : Tight ps) :
    ∃ p qs, ps = p :: qs ∧ p.isExtra = false ∧ good x p := by
  cases h with
  | extra hp _ _ =>
      rw [ht.1 _ rfl] at hp
      cases hp
  | part hp hg _ => exact ⟨_, _, rfl, hp, hg⟩

/-- A property that the trees of extra parts and of all steps have. -/
theorem Matches.forall_assemble {good : Sym → Part κ ρ → Prop} {extra : Part κ ρ → Prop}
    {P : Tree κ ρ → Prop} {ss : List (Step Sym κ ρ)} {ps : List (Part κ ρ)}
    (h : Matches good extra (ss.map (·.symbol)) ps)
    (hextra : ∀ p, extra p → ∀ c ∈ p.trees none none, P c)
    (hss : ∀ s ∈ ss, ∀ p, good s.symbol p → ∀ c ∈ p.trees s.role s.shownAs, P c) :
    ∀ c ∈ assemble ss ps, P c := by
  generalize hxs : ss.map (·.symbol) = xs at h
  induction h generalizing ss with
  | nil => cases ss <;> simp [assemble]
  | @extra xs p ps hp he _ ih =>
      have hassemble : assemble ss (p :: ps) = p.trees none none ++ assemble ss ps := by
        cases ss with
        | nil => rfl
        | cons s ss => rw [assemble, if_pos hp]
      rw [hassemble]
      intro c hc
      rcases List.mem_append.mp hc with hc | hc
      · exact hextra p he c hc
      · exact ih hss hxs c hc
  | @part x xs p ps hp hg _ ih =>
      cases ss with
      | nil => cases hxs
      | cons s ss =>
          obtain ⟨rfl, hrest⟩ := List.cons.inj hxs
          rw [assemble, hp]
          intro c hc
          rcases List.mem_append.mp hc with hc | hc
          · exact hss s List.mem_cons_self p hg c hc
          · exact ih (fun s' hs' => hss s' (List.mem_cons_of_mem s hs')) hrest c hc

/-- A property of parts that holds of tokens read in a valid place, and passes from the parts of a
production to the whole, which stands in the row of its first part. -/
structure Closed (t : Table κ ρ) (rd : Reader σ κ) (valid : σ → Prop) (proper : Lexeme κ → Prop)
    (good : Sym → Part κ ρ → Prop) (extra : Part κ ρ → Prop) : Prop where
  read : ∀ {e s l s'}, valid s → rd.read e s = some (l, s') → proper l ∧ valid s'
  reread : ∀ {l l'}, proper l → rd.reread l = some l' → proper l'
  token : ∀ {l}, proper l → good (.token l.token) ⟨l.kind, l.row, l.text, [], false⟩
  extras : ∀ {l}, proper l → rd.isExtra l.token = true → extra ⟨l.kind, l.row, l.text, [], true⟩
  production : ∀ {p parts} (row : Nat), p ∈ t.productions →
    Matches good extra p.symbols parts → Tight parts → (∀ q ∈ parts.head?, row = q.row) →
    good (.node p.head) ⟨(t.shown[p.head]?).join, row, "", assemble p.steps.toList parts, false⟩

section Stacks

variable (t : Table κ ρ) (good : Sym → Part κ ρ → Prop) (extra : Part κ ρ → Prop)

/-- A stack of good parts for the given symbols, the last one first, whose kernels fit. -/
inductive Stacked : List (Frame κ ρ) → List Sym → Prop where
  | nil : Stacked [] []
  | extra {f : Frame κ ρ} {fs : List (Frame κ ρ)} {xs : List Sym} (hp : f.part.isExtra = true)
      (he : extra f.part) (hk : Kernel.Fits t xs f.kernel) (h : Stacked fs xs) :
      Stacked (f :: fs) xs
  | part {f : Frame κ ρ} {fs : List (Frame κ ρ)} {x : Sym} {xs : List Sym}
      (hp : f.part.isExtra = false) (hg : good x f.part) (hk : Kernel.Fits t (x :: xs) f.kernel)
      (h : Stacked fs xs) : Stacked (f :: fs) (x :: xs)

variable {t good extra} {start : Kernel} {fs : List (Frame κ ρ)} {xs : List Sym}

theorem Stacked.topKernel (hstart : Kernel.Fits t [] start) (h : Stacked t good extra fs xs) :
    Kernel.Fits t xs (Grammar.topKernel start fs) := by
  cases h with
  | nil => exact hstart
  | extra _ _ hk _ => exact hk
  | part _ _ hk _ => exact hk

theorem Stacked.pushPart (ht : t.WellFormed) (hstart : Kernel.Fits t [] start)
    (h : Stacked t good extra fs xs) {x : Sym} {p : Part κ ρ} (hp : p.isExtra = false)
    (hg : good x p) : Stacked t good extra (Grammar.pushPart t start fs x p) (x :: xs) :=
  .part hp hg ((h.topKernel hstart).advance ht x) h

theorem Stacked.of_extra {f : Frame κ ρ} (h : Stacked t good extra (f :: fs) xs)
    (hf : f.part.isExtra = true) : extra f.part ∧ Stacked t good extra fs xs := by
  cases h with
  | extra _ he _ h => exact ⟨he, h⟩
  | part hp _ _ _ => simp [hp] at hf

theorem Stacked.of_part {f : Frame κ ρ} {x : Sym} (h : Stacked t good extra (f :: fs) (x :: xs))
    (hf : ¬ f.part.isExtra = true) : good x f.part ∧ Stacked t good extra fs xs := by
  cases h with
  | extra hp _ _ _ => exact absurd hp hf
  | part _ hg _ h => exact ⟨hg, h⟩

/-- Taking parts off a stack: they match the symbols they were read for. -/
theorem Stacked.takeParts {n : Nat} {ws zs : List Sym} {acc : List (Part κ ρ)}
    (h : Stacked t good extra fs (ws ++ xs)) (hn : ws.length = n)
    (hacc : Matches good extra zs acc) :
    Matches good extra (ws.reverse ++ zs) (Grammar.takeParts n fs acc).1 ∧
      Stacked t good extra (Grammar.takeParts n fs acc).2 xs := by
  fun_induction Grammar.takeParts n fs acc generalizing ws zs with
  | case1 fs acc =>
      obtain rfl := List.length_eq_zero_iff.mp hn
      exact ⟨hacc, h⟩
  | case2 n acc =>
      cases ws with
      | nil => cases hn
      | cons w ws => cases h
  | case3 n f fs acc hf ih =>
      obtain ⟨he, h⟩ := h.of_extra hf
      exact ih h hn (.extra hf he hacc)
  | case4 n f fs acc hf ih =>
      cases ws with
      | nil => cases hn
      | cons w ws =>
          obtain ⟨hg, h⟩ := h.of_part hf
          have hrest := ih h (by simpa using hn) (.part (by simpa using hf) hg hacc)
          simpa using hrest

/-- Parts taken off a stack that ends in a proper part end in it, and begin with a proper part. -/
theorem Stacked.tight_takeParts {n : Nat} {ws : List Sym} {acc : List (Part κ ρ)}
    (h : Stacked t good extra fs (ws ++ xs)) (hn : ws.length = n)
    (hlast : ∀ p ∈ acc.getLast?, p.isExtra = false)
    (hnil : acc = [] → ∀ f ∈ fs.head?, f.part.isExtra = false)
    (hzero : n = 0 → ∀ p ∈ acc.head?, p.isExtra = false) :
    Tight (Grammar.takeParts n fs acc).1 := by
  fun_induction Grammar.takeParts n fs acc generalizing ws with
  | case1 fs acc => exact ⟨hzero rfl, hlast⟩
  | case2 n acc =>
      cases ws with
      | nil => cases hn
      | cons w ws => cases h
  | case3 n f fs acc hf ih =>
      have hacc : acc ≠ [] := fun hacc => by simp [hnil hacc f rfl] at hf
      refine ih (h.of_extra hf).2 hn ?_ (fun h => by cases h) (fun h => by cases h)
      rw [List.getLast?_cons_of_ne_nil hacc]
      exact hlast
  | case4 n f fs acc hf ih =>
      have hproper : f.part.isExtra = false := by simpa using hf
      cases ws with
      | nil => cases hn
      | cons w ws =>
          refine ih (h.of_part hf).2 (by simpa using hn) ?_ (fun h => by cases h) ?_
          · by_cases hacc : acc = []
            · subst hacc
              intro p hp
              obtain rfl := Option.mem_some.mp hp
              exact hproper
            · rw [List.getLast?_cons_of_ne_nil hacc]
              exact hlast
          · intro _ p hp
            obtain rfl := Option.mem_some.mp hp
            exact hproper

theorem head?_dropWhile_isExtra (fs : List (Frame κ ρ)) :
    ∀ f ∈ (fs.dropWhile (·.part.isExtra)).head?, f.part.isExtra = false := by
  induction fs with
  | nil => simp
  | cons f fs ih =>
      rw [List.dropWhile_cons]
      split
      · exact ih
      · rename_i hf
        intro g hg
        obtain rfl := Option.mem_some.mp hg
        simpa using hf

theorem Stacked.dropWhile (h : Stacked t good extra fs xs) :
    Stacked t good extra (fs.dropWhile (·.part.isExtra)) xs := by
  induction h with
  | nil => exact .nil
  | extra hp _ _ _ ih =>
      rw [List.dropWhile_cons, hp]
      exact ih
  | part hp hg hk h ih =>
      rw [List.dropWhile_cons, hp]
      exact .part hp hg hk h

/-- The extra parts at the end of a stack. -/
theorem Stacked.takeWhile (h : Stacked t good extra fs xs) :
    ∀ f ∈ fs.takeWhile (·.part.isExtra), f.part.isExtra = true ∧ extra f.part := by
  induction h with
  | nil => simp
  | extra hp he _ _ ih =>
      rw [List.takeWhile_cons, hp]
      intro f hf
      rcases List.mem_cons.mp hf with rfl | hf
      · exact ⟨hp, he⟩
      · exact ih f hf
  | part hp _ _ _ ih =>
      rw [List.takeWhile_cons, hp]
      simp

/-- Extra parts on top of a stack, all with the kernel that the stack has reached. -/
theorem Stacked.putExtra {es : List (Frame κ ρ)} (hstart : Kernel.Fits t [] start)
    (he : ∀ f ∈ es, f.part.isExtra = true ∧ extra f.part) (h : Stacked t good extra fs xs) :
    Stacked t good extra
      (es.map (fun f => { f with kernel := Grammar.topKernel start fs }) ++ fs) xs := by
  induction es with
  | nil => exact h
  | cons e es ih =>
      have hrest := ih fun f hf => he f (List.mem_cons_of_mem e hf)
      obtain ⟨hp, hx⟩ := he e List.mem_cons_self
      exact .extra hp hx (h.topKernel hstart) hrest

/-! ### Completing productions -/

/-- A production is completed only if an item of the kernel is at its end. -/
theorem Table.mem_reduces {t : Table κ ρ} {k : Kernel} {token n : Nat}
    (h : n ∈ (t.actions k token).reduces) : ∃ i ∈ k, i.production = n ∧ t.next? i = none := by
  let done := k.filter fun i => (t.next? i).isNone && i.lookahead.contains token
  let complete := (done.filter fun i => t.precOf i == highest (done.map t.precOf)).map
    (·.production)
  have hreduces : (t.actions k token).reduces = [] ∨ (t.actions k token).reduces = complete := by
    simp only [actions]
    repeat' split
    all_goals first
      | exact .inl rfl
      | exact .inr rfl
  rcases hreduces with hnil | hcomplete
  · rw [hnil] at h
    cases h
  · rw [hcomplete] at h
    obtain ⟨i, hi, rfl⟩ := List.mem_map.mp h
    have hdone : i ∈ done := (List.mem_filter.mp hi).1
    rw [List.mem_filter, Bool.and_eq_true, Option.isNone_iff_eq_none] at hdone
    exact ⟨i, hdone.1, rfl, hdone.2.1⟩

/-- A complete item: its production has been read to the end. -/
theorem Item.Fits.complete {i : Item} (h : i.Fits t xs) (hnext : t.next? i = none) :
    ∃ p ys, t.productions[i.production]? = some p ∧ xs = p.symbols.reverse ++ ys ∧
      (p.head = t.start → ys = []) := by
  obtain ⟨p, hp, hle, ⟨ys, hys⟩, hstart⟩ := h
  rw [Table.next?_eq hp, Array.getElem?_eq_none_iff] at hnext
  have hdot : i.dot = p.steps.size := by omega
  rw [hdot, Production.done_size] at hys
  refine ⟨p, ys, hp, hys.symm, ?_⟩
  intro hh
  have hlength := hstart hh
  rw [← hys, hdot, List.length_append, List.length_reverse, p.length_symbols] at hlength
  exact List.length_eq_zero_iff.mp (by omega)

theorem Stacked.reduce {rd : Reader σ κ} {valid : σ → Prop} {proper : Lexeme κ → Prop}
    (hc : Closed t rd valid proper good extra) (ht : t.WellFormed) (hstart : Kernel.Fits t [] start)
    {r : Reading σ κ ρ} {p : Production κ ρ} {ys : List Sym} (hp : p ∈ t.productions)
    (h : Stacked t good extra r.stack (p.symbols.reverse ++ ys)) :
    Stacked t good extra (Grammar.reduce t start r p).stack (.node p.head :: ys) := by
  have hlength : p.symbols.reverse.length = p.steps.size := by
    rw [List.length_reverse, p.length_symbols]
  obtain ⟨hparts, hbelow⟩ := h.dropWhile.takeParts hlength .nil
  rw [List.reverse_reverse, List.append_nil] at hparts
  have htight : Tight (Grammar.takeParts p.steps.size
      (r.stack.dropWhile (·.part.isExtra)) []).1 := by
    refine h.dropWhile.tight_takeParts hlength ?_ (fun _ => head?_dropWhile_isExtra r.stack) ?_
    · simp
    · simp
  have hwhole := fun row => hc.production row hp hparts htight
  refine (hbelow.pushPart ht hstart rfl (hwhole _ ?_)).putExtra hstart h.takeWhile
  generalize (Grammar.takeParts p.steps.size (r.stack.dropWhile (·.part.isExtra)) []).1 = parts
  intro q hq
  cases parts with
  | nil => cases hq
  | cons q' parts => exact congrArg Part.row (Option.some.inj hq)

/-! ### The tree of a text -/

/-- A tree made from a good part of a symbol, with extra parts around it. -/
def RootOf (good : Sym → Part κ ρ → Prop) (extra : Part κ ρ → Prop) (x : Sym) (root : κ)
    (tree : Tree κ ρ) : Prop :=
  ∃ (before : List (Part κ ρ)) (whole : Part κ ρ) (after : List (Part κ ρ)),
    (∀ p ∈ before, extra p) ∧ good x whole ∧ (∀ p ∈ after, extra p) ∧
    tree = .node root none 0 "" (before.flatMap (·.trees none none) ++
      (whole.children ++ after.flatMap (·.trees none none)))

theorem Stacked.all_extra (h : Stacked t good extra fs []) :
    ∀ f ∈ fs, f.part.isExtra = true ∧ extra f.part := by
  generalize hxs : ([] : List Sym) = xs at h
  induction h with
  | nil => simp
  | extra hp he _ _ ih =>
      intro f hf
      rcases List.mem_cons.mp hf with rfl | hf
      · exact ⟨hp, he⟩
      · exact ih hxs f hf
  | part => cases hxs

/-- A stack of one part among extra ones. -/
theorem Stacked.exists_single {x : Sym} (h : Stacked t good extra fs [x]) :
    ∃ as f bs, fs = as ++ f :: bs ∧ (∀ g ∈ as, g.part.isExtra = true ∧ extra g.part) ∧
      (∀ g ∈ bs, g.part.isExtra = true ∧ extra g.part) ∧ f.part.isExtra = false ∧
      good x f.part := by
  generalize hxs : [x] = xs at h
  induction h with
  | nil => cases hxs
  | extra hp he _ _ ih =>
      obtain ⟨as, g, bs, rfl, has, hbs, hg⟩ := ih hxs
      refine ⟨_ :: as, g, bs, rfl, ?_, hbs, hg⟩
      intro f hf
      rcases List.mem_cons.mp hf with rfl | hf
      · exact ⟨hp, he⟩
      · exact has f hf
  | part hp hg _ h _ =>
      obtain ⟨rfl, rfl⟩ := List.cons.inj hxs
      exact ⟨[], _, _, rfl, by simp, h.all_extra, hp, hg⟩

theorem flatMap_extra {es : List (Frame κ ρ)}
    (he : ∀ f ∈ es, f.part.isExtra = true ∧ extra f.part) :
    (es.flatMap fun f => if f.part.isExtra then f.part.trees none none else f.part.children) =
      (es.map (·.part)).flatMap (·.trees none none) := by
  induction es with
  | nil => rfl
  | cons e es ih =>
      rw [List.flatMap_cons, List.map_cons, List.flatMap_cons, (he e List.mem_cons_self).1,
        ih fun f hf => he f (List.mem_cons_of_mem e hf)]
      rfl

theorem Stacked.rootTree {x : Sym} (h : Stacked t good extra fs [x]) (root : κ) :
    RootOf good extra x root (Grammar.rootTree root fs) := by
  obtain ⟨as, f, bs, rfl, has, hbs, hf, hg⟩ := h.exists_single
  have hparts : ∀ {es : List (Frame κ ρ)}, (∀ g ∈ es, g.part.isExtra = true ∧ extra g.part) →
      ∀ p ∈ es.reverse.map (·.part), extra p := by
    intro es he p hp
    obtain ⟨g, hg, rfl⟩ := List.mem_map.mp hp
    exact (he g (List.mem_reverse.mp hg)).2
  have hreverse : ∀ {es : List (Frame κ ρ)}, (∀ g ∈ es, g.part.isExtra = true ∧ extra g.part) →
      ∀ g ∈ es.reverse, g.part.isExtra = true ∧ extra g.part :=
    fun he g hg => he g (List.mem_reverse.mp hg)
  refine ⟨bs.reverse.map (·.part), f.part, as.reverse.map (·.part), hparts hbs, hg, hparts has, ?_⟩
  unfold Grammar.rootTree
  rw [List.reverse_append, List.reverse_cons, List.append_assoc, List.flatMap_append,
    flatMap_extra (hreverse hbs), List.singleton_append, List.flatMap_cons, hf,
    flatMap_extra (hreverse has)]
  rfl

variable {rd : Reader σ κ} {valid : σ → Prop} {proper : Lexeme κ → Prop} {root : κ}

variable (t good extra valid) in
/-- A reading of good parts that has come to a valid place. -/
def Reading.Good (r : Reading σ κ ρ) : Prop :=
  valid r.rest ∧ ∃ xs, Stacked t good extra r.stack xs

variable (t good extra valid) in
/-- What may become of a reading: it goes on with good parts, or ends in a tree made from one. -/
def Outcome.Good (root : κ) : Outcome σ κ ρ → Prop
  | live r => r.Good t good extra valid
  | accepted tree _ => RootOf good extra (.node t.start) root tree

/-! ### All readings -/

theorem good_shift (hc : Closed t rd valid proper good extra) (ht : t.WellFormed)
    (hstart : Kernel.Fits t [] start) {r : Reading σ κ ρ} (h : Stacked t good extra r.stack xs)
    {l : Lexeme κ} (hl : proper l) {rest : σ} (hrest : valid rest) :
    Outcome.Good t good extra valid root (.live (shift t start r l rest)) :=
  ⟨hrest, _, h.pushPart ht hstart rfl (hc.token hl)⟩

theorem good_complete (hc : Closed t rd valid proper good extra) (ht : t.WellFormed)
    (hstart : Kernel.Fits t [] start) {r : Reading σ κ ρ} (hr : valid r.rest)
    (h : Stacked t good extra r.stack xs) {token n : Nat}
    (hn : n ∈ (t.actions (topKernel start r.stack) token).reduces)
    {o : Outcome σ κ ρ} (ho : (t.productions[n]?).map (fun p =>
      let r' := reduce t start r p
      if p.head = t.start then Outcome.accepted (Grammar.rootTree root r'.stack) r'.prefer
      else .live r') = some o) : Outcome.Good t good extra valid root o := by
  obtain ⟨i, hi, rfl, hnext⟩ := Table.mem_reduces hn
  obtain ⟨p, ys, hp, rfl, hys⟩ := (h.topKernel hstart i hi).complete hnext
  have hreduce := h.reduce hc ht hstart (Array.mem_of_getElem? hp)
  rw [hp, Option.map_some] at ho
  obtain rfl := Option.some.inj ho
  dsimp only
  split
  · rename_i hh
    rw [hys hh, hh] at hreduce
    exact hreduce.rootTree root
  · exact ⟨hr, _, hreduce⟩

/-- **One reading at one token**: whatever comes of it is good. -/
theorem good_follow (hc : Closed t rd valid proper good extra) (ht : t.WellFormed)
    (hstart : Kernel.Fits t [] start) {rest : σ} (hrest : valid rest) (fuel : Nat)
    {r : Reading σ κ ρ} (h : r.Good t good extra valid) {l : Lexeme κ} (hl : proper l) :
    ∀ o ∈ follow t start rd root rest fuel r l, Outcome.Good t good extra valid root o := by
  induction fuel generalizing r l with
  | zero =>
      intro o ho
      cases ho
  | succ fuel ih =>
      obtain ⟨hr, xs, hs⟩ := h
      intro o ho
      simp only [follow] at ho
      split at ho
      · obtain rfl := List.mem_singleton.mp ho
        exact good_shift hc ht hstart hs hl hrest
      · split at ho
        · rename_i hextra
          obtain rfl := List.mem_singleton.mp ho
          exact ⟨hrest, xs, .extra rfl (hc.extras hl hextra) (hs.topKernel hstart) hs⟩
        · split at ho
          · rename_i l' hl'
            exact ih ⟨hr, xs, hs⟩ (hc.reread hl hl') o ho
          · cases ho
      · rcases List.mem_append.mp ho with ho | ho
        · obtain ⟨n, hn, hno⟩ := List.mem_filterMap.mp ho
          exact good_complete hc ht hstart hr hs hn hno
        · obtain rfl := List.mem_singleton.mp ho
          exact good_shift hc ht hstart hs hl hrest
      · rename_i last others hreverse _
        have hmem : ∀ n, n = last ∨ n ∈ others →
            n ∈ (t.actions (topKernel start r.stack) l.token).reduces := by
          intro n hn
          rw [← List.mem_reverse, hreverse]
          exact List.mem_cons.mpr hn
        rcases List.mem_append.mp ho with ho | ho
        · obtain ⟨n, hn, hno⟩ := List.mem_filterMap.mp ho
          exact good_complete hc ht hstart hr hs (hmem n (.inr (List.mem_reverse.mp hn))) hno
        · split at ho
          · rename_i r' hr'
            have hnext : Outcome.Good t good extra valid root (.live r') :=
              good_complete hc ht hstart hr hs (hmem last (.inl rfl)) hr'
            exact ih hnext hl o ho
          · rename_i done _ hdone
            obtain rfl := List.mem_singleton.mp ho
            exact good_complete hc ht hstart hr hs (hmem last (.inl rfl)) hdone
          · cases ho

theorem mem_addReading {r q : Reading σ κ ρ} {qs : List (Reading σ κ ρ)}
    (h : q ∈ addReading rd r qs) : q = r ∨ q ∈ qs := by
  induction qs with
  | nil => exact .inl (List.mem_singleton.mp h)
  | cons q' qs ih =>
      rw [addReading] at h
      split at h
      · split at h
        · rcases List.mem_cons.mp h with rfl | h
          · exact .inl rfl
          · exact .inr (List.mem_cons_of_mem q' h)
        · exact .inr h
      · rcases List.mem_cons.mp h with rfl | h
        · exact .inr List.mem_cons_self
        · rcases ih h with rfl | h
          · exact .inl rfl
          · exact .inr (List.mem_cons_of_mem q' h)

theorem better_eq {best : Option (Tree κ ρ × Int)} {tree : Tree κ ρ} {p : Int}
    {b : Tree κ ρ × Int} (h : b ∈ better best tree p) : b.1 = tree ∨ b ∈ best := by
  unfold better at h
  split at h
  · exact .inl (congrArg Prod.fst (Option.mem_some.mp h).symm)
  · split at h
    · exact .inl (congrArg Prod.fst (Option.mem_some.mp h).symm)
    · exact .inr h

variable (t good extra valid) in
/-- Readings under way and the best tree so far, all good. -/
structure AllGood (root : κ) (rs : List (Reading σ κ ρ)) (best : Option (Tree κ ρ × Int)) :
    Prop where
  readings : ∀ r ∈ rs, r.Good t good extra valid
  best : ∀ b ∈ best, RootOf good extra (.node t.start) root b.1

/-- **One round** keeps all readings and the best tree so far good. -/
theorem AllGood.round (hc : Closed t rd valid proper good extra) (ht : t.WellFormed)
    (hstart : Kernel.Fits t [] start) (fuel : Nat) {rs : List (Reading σ κ ρ)}
    {best : Option (Tree κ ρ × Int)} (h : AllGood t good extra valid root rs best) :
    AllGood t good extra valid root (Grammar.round t start rd root fuel rs best).1
      (Grammar.round t start rd root fuel rs best).2 := by
  unfold Grammar.round
  refine List.foldlRecOn (motive := fun (x : List (Reading σ κ ρ) × Option (Tree κ ρ × Int)) =>
    AllGood t good extra valid root x.1 x.2) _ _ ⟨by simp, h.best⟩ ?_
  rintro ⟨qs, b⟩ hqs o ho
  have hgood : Outcome.Good t good extra valid root o := by
    obtain ⟨r, hr, ho⟩ := List.mem_flatMap.mp ho
    generalize List.foldl _ _ rs = behind at ho
    split at ho
    · split at ho
      · cases ho
      · rename_i l rest hread
        obtain ⟨hl, hrest⟩ := hc.read (h.readings r hr).1 hread
        exact good_follow hc ht hstart hrest fuel (h.readings r hr) hl o ho
    · obtain rfl := List.mem_singleton.mp ho
      exact h.readings r hr
  cases o with
  | live r =>
      refine ⟨?_, hqs.best⟩
      intro q hq
      rcases mem_addReading hq with rfl | hq
      · exact hgood
      · exact hqs.readings q hq
  | accepted tree p =>
      refine ⟨hqs.readings, ?_⟩
      intro c hc'
      rcases better_eq hc' with heq | hc'
      · exact heq ▸ hgood
      · exact hqs.best c hc'

theorem AllGood.run (hc : Closed t rd valid proper good extra) (ht : t.WellFormed)
    (hstart : Kernel.Fits t [] start) (inner fuel : Nat) {rs : List (Reading σ κ ρ)}
    {best : Option (Tree κ ρ × Int)} (h : AllGood t good extra valid root rs best) {tree : Tree κ ρ}
    (hrun : Grammar.run t start rd root inner fuel rs best = some tree) :
    RootOf good extra (.node t.start) root tree := by
  have hfinal : ∀ {best : Option (Tree κ ρ × Int)} {rs : List (Reading σ κ ρ)},
      AllGood t good extra valid root rs best → best.map (·.1) = some tree →
      RootOf good extra (.node t.start) root tree := by
    intro best rs h hmap
    obtain ⟨b, hb, rfl⟩ := Option.map_eq_some_iff.mp hmap
    exact h.best b hb
  fun_induction Grammar.run t start rd root inner fuel rs best with
  | case1 rs best => exact hfinal h hrun
  | case2 fuel best => exact hfinal h hrun
  | case3 best fuel rs _ rs' best' hround ih =>
      have hnext := h.round hc ht hstart inner
      rw [hround] at hnext
      exact ih hnext hrun

/-- **The tree of a text** is made from a good part of the start symbol. -/
theorem parse?_spec (hc : Closed t rd valid proper good extra) (ht : t.WellFormed)
    {endToken limit : Nat} {text : σ} (htext : valid text) {tree : Tree κ ρ}
    (h : parse? t rd root endToken limit text = some tree) :
    RootOf good extra (.node t.start) root tree := by
  have hinitial : AllGood t good extra valid root [⟨[], text, 0⟩] none := by
    refine ⟨?_, ?_⟩
    · intro r hr
      obtain rfl := List.mem_singleton.mp hr
      exact ⟨htext, [], .nil⟩
    · intro b hb
      cases hb
  exact hinitial.run hc ht (t.fits_startKernel endToken) limit limit h

end Stacks

end DecisionScore.Grammar
