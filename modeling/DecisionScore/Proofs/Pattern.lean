/-! # Patterns

Regular expressions with groups, and how a search by backtracking reads with them.  `ways p cs` are
all the ways in which `p` can read the beginning of `cs`, the preferred one first: of two
alternatives the left one is preferred, and of repetitions the longer ones.  Whatever the preference
is, the ways are those that the language of the pattern allows (`isExact`), so that the groups of a
search are known once all ways to read agree on them (`search?_eq_some`). -/

namespace DecisionScore.Text

/-- A regular expression. -/
inductive Pattern where
  | char (accepts : Char → Bool)
  | empty
  | seq (first second : Pattern)
  | alt (preferred other : Pattern)
  /-- As many repetitions as possible first. -/
  | star (body : Pattern)
  /-- A part of which the text is kept. -/
  | group (body : Pattern)

namespace Pattern

/-! ### Searching -/

/-- What a pattern has read: the texts of its groups, in order, and what is left. -/
structure Match where
  groups : List (List Char)
  rest : List Char

/-- What can be left after at most `fuel` repetitions, the most repetitions first. -/
def repeats (next : List Char → List (List Char)) : Nat → List Char → List (List Char)
  | 0, cs => [cs]
  | fuel + 1, cs => (next cs).flatMap (repeats next fuel) ++ [cs]

/-- The ways to read the beginning of a text, the preferred one first.  Groups inside a repetition
are not kept. -/
def ways : Pattern → List Char → List Match
  | char _, [] => []
  | char accepts, c :: cs => if accepts c then [⟨[], cs⟩] else []
  | empty, cs => [⟨[], cs⟩]
  | seq p q, cs =>
    (ways p cs).flatMap fun m => (ways q m.rest).map fun k => ⟨m.groups ++ k.groups, k.rest⟩
  | alt p q, cs => ways p cs ++ ways q cs
  | star p, cs =>
    (repeats (fun ds => (ways p ds).map Match.rest) cs.length cs).map fun rest => ⟨[], rest⟩
  | group p, cs =>
    (ways p cs).map fun m => ⟨cs.take (cs.length - m.rest.length) :: m.groups, m.rest⟩

/-- The groups of the preferred way to read the beginning of a text. -/
def search? (p : Pattern) (cs : List Char) : Option (List (List Char)) :=
  (ways p cs).head?.map Match.groups

/-! ### The language of a pattern -/

/-- A text that a pattern reads, with the texts of its groups. -/
inductive Reads : Pattern → List Char → List (List Char) → Prop where
  | char {accepts : Char → Bool} {c : Char} (h : accepts c = true) : Reads (.char accepts) [c] []
  | empty : Reads .empty [] []
  | seq {p q : Pattern} {t u : List Char} {g h : List (List Char)} (first : Reads p t g)
      (second : Reads q u h) : Reads (.seq p q) (t ++ u) (g ++ h)
  | left {p q : Pattern} {t : List Char} {g : List (List Char)} (h : Reads p t g) :
      Reads (.alt p q) t g
  | right {p q : Pattern} {t : List Char} {g : List (List Char)} (h : Reads q t g) :
      Reads (.alt p q) t g
  | done {p : Pattern} : Reads (.star p) [] []
  | more {p : Pattern} {t u : List Char} {g : List (List Char)} (first : Reads p t g)
      (rest : Reads (.star p) u []) : Reads (.star p) (t ++ u) []
  | group {p : Pattern} {t : List Char} {g : List (List Char)} (h : Reads p t g) :
      Reads (.group p) t (t :: g)

section
variable {p q : Pattern} {t : List Char} {g : List (List Char)}

theorem reads_char {accepts : Char → Bool} :
    Reads (char accepts) t g ↔ ∃ c, accepts c = true ∧ t = [c] ∧ g = [] := by
  constructor
  · rintro ⟨h⟩
    exact ⟨_, h, rfl, rfl⟩
  · rintro ⟨c, h, rfl, rfl⟩
    exact .char h

theorem reads_empty : Reads empty t g ↔ t = [] ∧ g = [] := by
  constructor
  · rintro ⟨⟩
    exact ⟨rfl, rfl⟩
  · rintro ⟨rfl, rfl⟩
    exact .empty

theorem reads_seq : Reads (seq p q) t g ↔
    ∃ t₁ t₂ g₁ g₂, t = t₁ ++ t₂ ∧ g = g₁ ++ g₂ ∧ Reads p t₁ g₁ ∧ Reads q t₂ g₂ := by
  constructor
  · rintro (_ | _ | ⟨first, second⟩)
    exact ⟨_, _, _, _, rfl, rfl, first, second⟩
  · rintro ⟨t₁, t₂, g₁, g₂, rfl, rfl, first, second⟩
    exact .seq first second

theorem reads_alt : Reads (alt p q) t g ↔ Reads p t g ∨ Reads q t g := by
  constructor
  · rintro (_ | _ | _ | h | h)
    · exact .inl h
    · exact .inr h
  · rintro (h | h)
    · exact .left h
    · exact .right h

theorem reads_group : Reads (group p) t g ↔ ∃ g', g = t :: g' ∧ Reads p t g' := by
  constructor
  · rintro (_ | _ | _ | _ | _ | _ | _ | h)
    exact ⟨_, rfl, h⟩
  · rintro ⟨g', rfl, h⟩
    exact .group h

/-- A repetition reads pieces, none of which need be empty. -/
theorem reads_star : Reads (star p) t g ↔
    g = [] ∧ ∃ ts : List (List Char), t = ts.flatten ∧ ∀ u ∈ ts, u ≠ [] ∧ ∃ h, Reads p u h := by
  constructor
  · intro h
    generalize hq : star p = q at h
    induction h with
    | done => exact ⟨rfl, [], rfl, by simp⟩
    | @more _ u _ _ first _ _ ih =>
        cases hq
        obtain ⟨-, ts, rfl, hts⟩ := ih rfl
        refine ⟨rfl, ?_⟩
        by_cases hu : u = []
        · subst hu
          exact ⟨ts, rfl, hts⟩
        · exact ⟨u :: ts, rfl, List.forall_mem_cons.mpr ⟨⟨hu, _, first⟩, hts⟩⟩
    | _ => cases hq
  · rintro ⟨rfl, ts, rfl, hts⟩
    induction ts with
    | nil => exact .done
    | cons u ts ih =>
        obtain ⟨⟨-, g, hu⟩, hts⟩ := List.forall_mem_cons.mp hts
        exact .more hu (ih hts)

end

/-! ### The search is exact -/

/-- The ways of a search are those to read some beginning of the text. -/
def IsExact (p : Pattern) : Prop :=
  ∀ cs m, m ∈ ways p cs ↔ ∃ t, cs = t ++ m.rest ∧ Reads p t m.groups

theorem isExact_char (accepts : Char → Bool) : IsExact (char accepts) := by
  rintro cs ⟨g, r⟩
  simp only [reads_char]
  cases cs with
  | nil => simp [ways]
  | cons c cs =>
      rw [ways]
      constructor
      · intro hm
        split at hm
        · next hc =>
            cases List.mem_singleton.mp hm
            exact ⟨[c], rfl, c, hc, rfl, rfl⟩
        · cases hm
      · rintro ⟨t, ht, d, hd, rfl, rfl⟩
        cases ht
        simp [hd]

theorem isExact_empty : IsExact empty := by
  rintro cs ⟨g, r⟩
  simp only [ways, reads_empty, List.mem_singleton, Match.mk.injEq]
  constructor
  · rintro ⟨rfl, rfl⟩
    exact ⟨[], rfl, rfl, rfl⟩
  · rintro ⟨t, ht, rfl, rfl⟩
    exact ⟨rfl, ht.symm⟩

section
variable {p q : Pattern}

theorem IsExact.seq (hp : IsExact p) (hq : IsExact q) : IsExact (.seq p q) := by
  rintro cs ⟨g, r⟩
  simp only [ways, List.mem_flatMap, List.mem_map, Match.mk.injEq, reads_seq]
  constructor
  · rintro ⟨⟨g₁, r₁⟩, hfirst, ⟨g₂, r₂⟩, hsecond, rfl, rfl⟩
    obtain ⟨t₁, rfl, hread₁⟩ := (hp _ _).mp hfirst
    obtain ⟨t₂, rfl, hread₂⟩ := (hq _ _).mp hsecond
    exact ⟨t₁ ++ t₂, (List.append_assoc ..).symm, t₁, t₂, g₁, g₂, rfl, rfl, hread₁, hread₂⟩
  · rintro ⟨t, rfl, t₁, t₂, g₁, g₂, rfl, rfl, hread₁, hread₂⟩
    exact ⟨⟨g₁, t₂ ++ r⟩, (hp _ _).mpr ⟨t₁, List.append_assoc .., hread₁⟩, ⟨g₂, r⟩,
      (hq _ _).mpr ⟨t₂, rfl, hread₂⟩, rfl, rfl⟩

theorem IsExact.alt (hp : IsExact p) (hq : IsExact q) : IsExact (.alt p q) := by
  intro cs m
  rw [ways, List.mem_append, hp, hq]
  simp only [reads_alt, ← exists_or, ← and_or_left]

theorem IsExact.group (hp : IsExact p) : IsExact (.group p) := by
  rintro cs ⟨g, r⟩
  have htake : ∀ t r : List Char, (t ++ r).take ((t ++ r).length - r.length) = t := by simp
  simp only [ways, List.mem_map, Match.mk.injEq, reads_group]
  constructor
  · rintro ⟨⟨g, r⟩, hm, rfl, rfl⟩
    obtain ⟨t, rfl, hread⟩ := (hp _ _).mp hm
    exact ⟨t, rfl, g, by rw [htake], hread⟩
  · rintro ⟨t, rfl, g, rfl, hread⟩
    exact ⟨⟨g, r⟩, (hp _ _).mpr ⟨t, rfl, hread⟩, by rw [htake], rfl⟩

end

theorem mem_repeats {p : Pattern} {next : List Char → List (List Char)}
    (h : ∀ cs r, r ∈ next cs ↔ ∃ t g, cs = t ++ r ∧ Reads p t g) {fuel : Nat} {cs : List Char}
    (hfuel : cs.length ≤ fuel) (r : List Char) :
    r ∈ repeats next fuel cs ↔ ∃ t, cs = t ++ r ∧ Reads (star p) t [] := by
  constructor
  · clear hfuel
    intro hr
    induction fuel generalizing cs with
    | zero => exact ⟨[], (List.mem_singleton.mp hr).symm, .done⟩
    | succ fuel ih =>
        rw [repeats, List.mem_append, List.mem_flatMap, List.mem_singleton] at hr
        rcases hr with ⟨ds, hds, hr⟩ | rfl
        · obtain ⟨t, g, rfl, hfirst⟩ := (h cs ds).mp hds
          obtain ⟨u, rfl, hrest⟩ := ih hr
          exact ⟨t ++ u, (List.append_assoc t u r).symm, .more hfirst hrest⟩
        · exact ⟨[], rfl, .done⟩
  · rintro ⟨t, rfl, ht⟩
    obtain ⟨-, ts, rfl, hts⟩ := reads_star.mp ht
    clear ht
    -- no piece is empty, so that there are no more of them than characters
    induction ts generalizing fuel with
    | nil => cases fuel <;> simp [repeats]
    | cons u ts ih =>
        obtain ⟨⟨hu, g, hfirst⟩, hts⟩ := List.forall_mem_cons.mp hts
        have hpos := List.length_pos_iff.mpr hu
        rw [List.flatten_cons, List.append_assoc] at hfuel ⊢
        rw [List.length_append] at hfuel
        obtain ⟨fuel, rfl⟩ : ∃ k, fuel = k + 1 := ⟨fuel - 1, by omega⟩
        rw [repeats, List.mem_append, List.mem_flatMap]
        exact .inl ⟨ts.flatten ++ r, (h _ _).mpr ⟨u, g, rfl, hfirst⟩, ih hts (by omega)⟩

theorem IsExact.star {p : Pattern} (hp : IsExact p) : IsExact (.star p) := by
  have hnext : ∀ cs r, r ∈ (ways p cs).map Match.rest ↔ ∃ t g, cs = t ++ r ∧ Reads p t g := by
    intro cs r
    rw [List.mem_map]
    constructor
    · rintro ⟨⟨g, r⟩, hm, rfl⟩
      obtain ⟨t, ht, hread⟩ := (hp _ _).mp hm
      exact ⟨t, g, ht, hread⟩
    · rintro ⟨t, g, ht, hread⟩
      exact ⟨⟨g, r⟩, (hp _ _).mpr ⟨t, ht, hread⟩, rfl⟩
  rintro cs ⟨g, r⟩
  simp only [ways, List.mem_map, mem_repeats hnext (Nat.le_refl _), Match.mk.injEq]
  constructor
  · rintro ⟨r, ⟨t, rfl, ht⟩, rfl, rfl⟩
    exact ⟨t, rfl, ht⟩
  · rintro ⟨t, rfl, ht⟩
    obtain ⟨rfl, -⟩ := reads_star.mp ht
    exact ⟨r, ⟨t, rfl, ht⟩, rfl, rfl⟩

/-- **Searching is exact** for every pattern. -/
theorem isExact (p : Pattern) : IsExact p := by
  induction p with
  | char accepts => exact isExact_char accepts
  | empty => exact isExact_empty
  | seq p q hp hq => exact hp.seq hq
  | alt p q hp hq => exact hp.alt hq
  | star p hp => exact hp.star
  | group p hp => exact hp.group

/-- What a search finds, if all ways to read agree on the groups. -/
theorem search?_eq_some {p : Pattern} {cs : List Char} {g : List (List Char)}
    (h : ∃ t r, cs = t ++ r ∧ Reads p t g)
    (hunique : ∀ t r g', cs = t ++ r → Reads p t g' → g' = g) : p.search? cs = some g := by
  obtain ⟨t, r, ht, hp⟩ := h
  have hmem : ⟨g, r⟩ ∈ ways p cs := (p.isExact _ _).mpr ⟨t, ht, hp⟩
  obtain ⟨m, ms, hways⟩ := List.exists_cons_of_ne_nil (List.ne_nil_of_mem hmem)
  have hm : m ∈ ways p cs := hways ▸ List.mem_cons_self
  obtain ⟨t', ht', hp'⟩ := (p.isExact _ _).mp hm
  rw [search?, hways, List.head?_cons, Option.map_some, hunique t' m.rest m.groups ht' hp']

theorem search?_eq_none {p : Pattern} {cs : List Char} (h : ∀ t r g, cs = t ++ r → ¬ Reads p t g) :
    p.search? cs = none := by
  have hnil : ways p cs = [] := by
    refine List.eq_nil_iff_forall_not_mem.mpr fun m hm => ?_
    obtain ⟨t, ht, hp⟩ := (p.isExact _ _).mp hm
    exact h t m.rest m.groups ht hp
  rw [search?, hnil]
  rfl

/-! ### Characters that a pattern does not read -/

/-- Whether no part of a pattern reads the character. -/
def avoids (c : Char) : Pattern → Bool
  | char accepts => !accepts c
  | empty => true
  | seq p q => avoids c p && avoids c q
  | alt p q => avoids c p && avoids c q
  | star p => avoids c p
  | group p => avoids c p

theorem not_mem_of_avoids {c : Char} {p : Pattern} {t : List Char} {g : List (List Char)}
    (h : p.avoids c = true) (hread : Reads p t g) : c ∉ t := by
  induction hread with
  | char hd =>
      rintro hc
      rw [← List.mem_singleton.mp hc] at hd
      simp [avoids, hd] at h
  | empty => exact List.not_mem_nil
  | seq _ _ ihp ihq =>
      rw [avoids, Bool.and_eq_true] at h
      exact List.not_mem_append (ihp h.1) (ihq h.2)
  | left _ ih =>
      rw [avoids, Bool.and_eq_true] at h
      exact ih h.1
  | right _ ih =>
      rw [avoids, Bool.and_eq_true] at h
      exact ih h.2
  | done => exact List.not_mem_nil
  | more _ _ ihp ihrest => exact List.not_mem_append (ihp h) (ihrest h)
  | group _ ih => exact ih h

/-! ### Common patterns -/

/-- Just one text. -/
def literal (cs : List Char) : Pattern := cs.foldr (fun c p => seq (char (· == c)) p) empty

/-- Any number of characters of a class. -/
def many (accepts : Char → Bool) : Pattern := star (char accepts)

/-- At least one character of a class. -/
def many1 (accepts : Char → Bool) : Pattern := seq (char accepts) (many accepts)

/-- A part that may be missing. -/
def optional (p : Pattern) : Pattern := alt p empty

/-- The first of some patterns that fits. -/
def oneOf (ps : List Pattern) : Pattern := ps.foldr alt (char fun _ => false)

section
variable {t : List Char} {g : List (List Char)}

theorem reads_literal {cs : List Char} : Reads (literal cs) t g ↔ t = cs ∧ g = [] := by
  induction cs generalizing t g with
  | nil => exact reads_empty
  | cons c cs ih =>
      show Reads (seq (char (· == c)) (literal cs)) t g ↔ _
      rw [reads_seq]
      constructor
      · rintro ⟨t₁, t₂, g₁, g₂, rfl, rfl, hfirst, hrest⟩
        obtain ⟨d, hd, rfl, rfl⟩ := reads_char.mp hfirst
        obtain ⟨rfl, rfl⟩ := ih.mp hrest
        exact ⟨by rw [beq_iff_eq.mp hd]; rfl, rfl⟩
      · rintro ⟨rfl, rfl⟩
        exact ⟨[c], cs, [], [], rfl, rfl, .char (beq_self_eq_true c), ih.mpr ⟨rfl, rfl⟩⟩

theorem reads_many {accepts : Char → Bool} :
    Reads (many accepts) t g ↔ (∀ c ∈ t, accepts c = true) ∧ g = [] := by
  constructor
  · intro h
    obtain ⟨rfl, ts, rfl, hts⟩ := reads_star.mp h
    refine ⟨fun c hc => ?_, rfl⟩
    obtain ⟨u, hu, hcu⟩ := List.mem_flatten.mp hc
    obtain ⟨-, g, hread⟩ := hts u hu
    obtain ⟨d, hd, rfl, -⟩ := reads_char.mp hread
    rwa [List.mem_singleton.mp hcu]
  · rintro ⟨h, rfl⟩
    induction t with
    | nil => exact .done
    | cons c t ih =>
        obtain ⟨hc, ht⟩ := List.forall_mem_cons.mp h
        exact .more (.char hc) (ih ht)

theorem reads_many1 {accepts : Char → Bool} :
    Reads (many1 accepts) t g ↔ t ≠ [] ∧ (∀ c ∈ t, accepts c = true) ∧ g = [] := by
  rw [many1, reads_seq]
  constructor
  · rintro ⟨t₁, t₂, g₁, g₂, rfl, rfl, hfirst, hrest⟩
    obtain ⟨c, hc, rfl, rfl⟩ := reads_char.mp hfirst
    obtain ⟨ht, rfl⟩ := reads_many.mp hrest
    exact ⟨by simp, List.forall_mem_cons.mpr ⟨hc, ht⟩, rfl⟩
  · rintro ⟨hne, ht, rfl⟩
    obtain ⟨c, t, rfl⟩ := List.exists_cons_of_ne_nil hne
    obtain ⟨hc, ht⟩ := List.forall_mem_cons.mp ht
    exact ⟨[c], t, [], [], rfl, rfl, .char hc, reads_many.mpr ⟨ht, rfl⟩⟩

theorem reads_optional {p : Pattern} :
    Reads (optional p) t g ↔ Reads p t g ∨ t = [] ∧ g = [] := by
  rw [optional, reads_alt, reads_empty]

theorem reads_oneOf {ps : List Pattern} : Reads (oneOf ps) t g ↔ ∃ p ∈ ps, Reads p t g := by
  induction ps with
  | nil => simp [oneOf, reads_char]
  | cons p ps ih =>
      show Reads (alt p (oneOf ps)) t g ↔ _
      rw [reads_alt, ih]
      simp

end

end Pattern

end DecisionScore.Text
