import DecisionScore.Grammar.Rule

/-! # Checks on rules

What is read off a rule by recursion is a property of the bodies it stands for.  A check that passes
to all parts of a rule, under the marks around them (`IsCheck`), says something of every step of
every body (`IsCheck.forall_steps`).  A check of how phrases start (`IsFirstCheck`) passes to the
second of two parts only where the phrase of the first may be empty, and says something of the first
step of every body (`IsFirstCheck.first_step`). -/

namespace DecisionScore.Grammar.Rule

variable {τ ν κ ρ : Type} {number : Rule τ ν κ ρ → Nat} {numbered : Rule τ ν κ ρ → Prop}
  {good : Step (Symbol τ ν) κ ρ → Prop}

/-- A check of rules, under the marks around them, that passes to the parts of a rule and of whose
symbols the steps are good; `numbered` holds of what may be repeated. -/
structure IsCheck (number : Rule τ ν κ ρ → Nat) (numbered : Rule τ ν κ ρ → Prop)
    (good : Step (Symbol τ ν) κ ρ → Prop) (check : Marks κ ρ → Rule τ ν κ ρ → Prop) : Prop where
  token : ∀ {m t}, check m (.token t) → good ⟨.token t, m.prec, m.assoc, m.role, m.shownAs⟩
  ref : ∀ {m n}, check m (.ref n) → good ⟨.ref n, m.prec, m.assoc, m.role, m.shownAs⟩
  many1 : ∀ {m c}, numbered c → check m (.many1 c) →
    good ⟨.rep (number c), m.prec, m.assoc, m.role, m.shownAs⟩
  seq : ∀ {m a b}, check m (.seq a b) → check m a ∧ check m b
  alt : ∀ {m a b}, check m (.alt a b) → check m a ∧ check m b
  prec : ∀ {m p r}, check m (.prec p r) → check { m with prec := p } r
  assoc : ∀ {m s r}, check m (.assoc s r) → check { m with assoc := some s } r
  prefer : ∀ {m w r}, check m (.prefer w r) → check m r
  role : ∀ {m f r}, check m (.role f r) → check { m with role := some f } r
  shownAs : ∀ {m k r}, check m (.shownAs k r) → check { m with shownAs := some k } r

/-- The steps of a rule that passes a check are good. -/
theorem IsCheck.forall_steps {check : Marks κ ρ → Rule τ ν κ ρ → Prop}
    (h : IsCheck number numbered good check) {r : Rule τ ν κ ρ} {m : Marks κ ρ} (hr : check m r)
    (hnumber : ∀ c ∈ r.repeated, numbered c) : ∀ b ∈ r.bodies number m, ∀ s ∈ b.steps, good s := by
  induction r generalizing m with
  | blank => simp [bodies]
  | token t =>
      intro b hb s hs
      obtain rfl := List.mem_singleton.mp hb
      obtain rfl := List.mem_singleton.mp hs
      exact h.token hr
  | ref n =>
      intro b hb s hs
      obtain rfl := List.mem_singleton.mp hb
      obtain rfl := List.mem_singleton.mp hs
      exact h.ref hr
  | seq a b iha ihb =>
      obtain ⟨ha, hb⟩ := h.seq hr
      intro c hc s hs
      obtain ⟨x, hx, hc⟩ := List.mem_flatMap.mp hc
      obtain ⟨y, hy, rfl⟩ := List.mem_map.mp hc
      rcases List.mem_append.mp hs with hs | hs
      · exact iha ha (fun c hc => hnumber c (List.mem_append_left _ hc)) x hx s hs
      · exact ihb hb (fun c hc => hnumber c (List.mem_append_right _ hc)) y hy s hs
  | alt a b iha ihb =>
      obtain ⟨ha, hb⟩ := h.alt hr
      intro c hc
      rcases List.mem_append.mp hc with hc | hc
      · exact iha ha (fun c hc => hnumber c (List.mem_append_left _ hc)) c hc
      · exact ihb hb (fun c hc => hnumber c (List.mem_append_right _ hc)) c hc
  | many1 c _ =>
      intro b hb s hs
      obtain rfl := List.mem_singleton.mp hb
      obtain rfl := List.mem_singleton.mp hs
      exact h.many1 (hnumber c (List.mem_append_right _ List.mem_cons_self)) hr
  | prec _ r ih => exact ih (h.prec hr) hnumber
  | assoc _ r ih => exact ih (h.assoc hr) hnumber
  | prefer w r ih =>
      intro c hc
      obtain ⟨b, hb, rfl⟩ := List.mem_map.mp hc
      exact ih (h.prefer hr) hnumber b hb
  | role _ r ih => exact ih (h.role hr) hnumber
  | shownAs _ r ih => exact ih (h.shownAs hr) hnumber

/-- A check of how the phrases of a rule start, under the marks around it, and of whose symbols the
steps are good; the flag says whether a phrase may also be empty. -/
structure IsFirstCheck (number : Rule τ ν κ ρ → Nat) (numbered : Rule τ ν κ ρ → Prop)
    (good : Step (Symbol τ ν) κ ρ → Prop) (check : Bool → Marks κ ρ → Rule τ ν κ ρ → Prop) :
    Prop where
  blank : ∀ {empty m}, check empty m .blank → empty = true
  token : ∀ {empty m t}, check empty m (.token t) →
    good ⟨.token t, m.prec, m.assoc, m.role, m.shownAs⟩
  ref : ∀ {empty m n}, check empty m (.ref n) → good ⟨.ref n, m.prec, m.assoc, m.role, m.shownAs⟩
  many1 : ∀ {empty m c}, numbered c → check empty m (.many1 c) →
    good ⟨.rep (number c), m.prec, m.assoc, m.role, m.shownAs⟩
  seq : ∀ {empty m a b}, check empty m (.seq a b) →
    check false m a ∨ (check true m a ∧ check empty m b)
  alt : ∀ {empty m a b}, check empty m (.alt a b) → check empty m a ∧ check empty m b
  prec : ∀ {empty m p r}, check empty m (.prec p r) → check empty { m with prec := p } r
  assoc : ∀ {empty m s r}, check empty m (.assoc s r) → check empty { m with assoc := some s } r
  prefer : ∀ {empty m w r}, check empty m (.prefer w r) → check empty m r
  role : ∀ {empty m f r}, check empty m (.role f r) → check empty { m with role := some f } r
  shownAs : ∀ {empty m k r}, check empty m (.shownAs k r) →
    check empty { m with shownAs := some k } r

/-- The first step of a rule that passes a check is good, unless a body is empty that may be. -/
theorem IsFirstCheck.first_step {check : Bool → Marks κ ρ → Rule τ ν κ ρ → Prop}
    (h : IsFirstCheck number numbered good check) {r : Rule τ ν κ ρ} {empty : Bool}
    {m : Marks κ ρ} (hr : check empty m r) (hnumber : ∀ c ∈ r.repeated, numbered c) :
    ∀ b ∈ r.bodies number m,
      (b.steps = [] ∧ empty = true) ∨ ∃ s ss, b.steps = s :: ss ∧ good s := by
  induction r generalizing m empty with
  | blank =>
      intro b hb
      obtain rfl := List.mem_singleton.mp hb
      exact .inl ⟨rfl, h.blank hr⟩
  | token t =>
      intro b hb
      obtain rfl := List.mem_singleton.mp hb
      exact .inr ⟨_, [], rfl, h.token hr⟩
  | ref n =>
      intro b hb
      obtain rfl := List.mem_singleton.mp hb
      exact .inr ⟨_, [], rfl, h.ref hr⟩
  | seq a b iha ihb =>
      intro c hc
      obtain ⟨x, hx, hc⟩ := List.mem_flatMap.mp hc
      obtain ⟨y, hy, rfl⟩ := List.mem_map.mp hc
      have hna : ∀ c ∈ a.repeated, numbered c := fun c hc => hnumber c (List.mem_append_left _ hc)
      have hnb : ∀ c ∈ b.repeated, numbered c := fun c hc => hnumber c (List.mem_append_right _ hc)
      -- the second rule matters only where the phrase of the first may be empty
      rcases h.seq hr with ha | ⟨ha, hb⟩
      · rcases iha ha hna x hx with ⟨-, hfalse⟩ | ⟨s, ss, hs, hgood⟩
        · cases hfalse
        · exact .inr ⟨s, ss ++ y.steps, congrArg (· ++ y.steps) hs, hgood⟩
      · rcases iha ha hna x hx with ⟨hnil, -⟩ | ⟨s, ss, hs, hgood⟩
        · have hsteps : (joinBodies x y).steps = y.steps := congrArg (· ++ y.steps) hnil
          rw [hsteps]
          exact ihb hb hnb y hy
        · exact .inr ⟨s, ss ++ y.steps, congrArg (· ++ y.steps) hs, hgood⟩
  | alt a b iha ihb =>
      obtain ⟨ha, hb⟩ := h.alt hr
      intro c hc
      rcases List.mem_append.mp hc with hc | hc
      · exact iha ha (fun c hc => hnumber c (List.mem_append_left _ hc)) c hc
      · exact ihb hb (fun c hc => hnumber c (List.mem_append_right _ hc)) c hc
  | many1 c _ =>
      intro b hb
      obtain rfl := List.mem_singleton.mp hb
      have hc := hnumber c (List.mem_append_right _ List.mem_cons_self)
      exact .inr ⟨_, [], rfl, h.many1 hc hr⟩
  | prec _ r ih => exact ih (h.prec hr) hnumber
  | assoc _ r ih => exact ih (h.assoc hr) hnumber
  | prefer w r ih =>
      intro c hc
      obtain ⟨b, hb, rfl⟩ := List.mem_map.mp hc
      exact ih (h.prefer hr) hnumber b hb
  | role _ r ih => exact ih (h.role hr) hnumber
  | shownAs _ r ih => exact ih (h.shownAs hr) hnumber

end DecisionScore.Grammar.Rule
