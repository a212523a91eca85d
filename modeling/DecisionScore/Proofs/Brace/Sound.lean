import DecisionScore.Proofs.Brace.Lines

/-! # Scans are consistent

`Sound n s` says what holds of the state `s` of a scan before line `n`: the breakdown so far is
consistent and has one construct a line, only lines before `n` have a score, every construct on
the stack has been recorded, and the open method and class may be closed.  Every act of a line
keeps this (`Sound.perform`), so that it holds at the end (`sound_readLines`). -/

namespace DecisionScore.Brace

namespace Scanner

/-- What holds before line `n`. -/
structure Sound (n : Nat) (s : Scanner) : Prop where
  consistent : s.result.Consistent
  paths : s.result.cc = 1 + s.result.structures.total
  lines : s.result.lineScores.keys.length + 1 = s.result.cc
  before : ∀ line, (s.result.lineScores.get? line).isSome = true → line < n
  recorded : ∀ k ∈ s.nesting, (s.result.structures.get? k).isSome = true
  openMethod : ∀ m ∈ s.openMethod, m.score.Within s.result
  openClass : ∀ c ∈ s.openClass, c.score.Within s.result

namespace Sound

theorem initial : Sound 1 initial where
  consistent := Breakdown.consistent_baseline
  paths := rfl
  lines := rfl
  before _ h := by cases h
  recorded _ h := by cases h
  openMethod _ h := by cases h
  openClass _ h := by cases h

variable {n : Nat} {s : Scanner}

theorem succ (h : Sound n s) : Sound (n + 1) s :=
  { h with before := fun line hl => Nat.lt_succ_of_lt (h.before line hl) }

/-- The line that comes next has no score yet. -/
theorem get?_eq_none (h : Sound n s) : s.result.lineScores.get? n = none := by
  cases hl : s.result.lineScores.get? n with
  | none => rfl
  | some m =>
      have := h.before n (by rw [hl]; rfl)
      omega

/-! ### Scoring a construct -/

/-- Everything on the stack below a construct has been recorded once the construct has. -/
theorem recorded_addTo (h : Sound n s) (o : Occurrence) :
    ∀ k ∈ o.push s.nesting, ((o.addTo s.result).structures.get? k).isSome = true := by
  intro k hk
  have hold : k ∈ s.nesting → ((o.addTo s.result).structures.get? k).isSome = true := fun hk =>
    s.result.structures.isSome_record _ _ _ (h.recorded k hk)
  unfold Occurrence.push at hk
  split at hk
  · exact hold hk
  · rcases List.mem_cons.mp hk with rfl | hk
    · exact s.result.structures.isSome_record_self _ _
    · exact hold hk

theorem mem_of_parent? {nesting : List Construct} {depth : Nat} {parent : Construct}
    (h : parent? nesting depth = some parent) : parent ∈ nesting := by
  unfold parent? at h
  split at h
  · cases h
  · exact List.mem_of_getElem? h

theorem consistent_enter (h : Sound n s) (o : Occurrence) : (s.enter o).result.Consistent := by
  have hadd : (o.addTo s.result).Consistent :=
    h.consistent.occurrence o.one_le_dc o.line o.kind o.depth
  rw [result_enter]
  cases hp : parent? (o.push s.nesting) o.depth with
  | none => exact hadd
  | some parent => exact hadd.noteNested (h.recorded_addTo o parent (mem_of_parent? hp)) _ _

theorem recorded_enter (h : Sound n s) (o : Occurrence) :
    ∀ k ∈ o.push s.nesting, ((s.enter o).result.structures.get? k).isSome = true := by
  intro k hk
  have hadd := h.recorded_addTo o k hk
  rw [result_enter]
  cases parent? (o.push s.nesting) o.depth with
  | none => exact hadd
  | some parent => exact Structures.isSome_noteNested _ _ _ _ _ hadd

/-- **Scoring the construct of line `n`.** -/
theorem enter (h : Sound n s) (o : Occurrence) (ho : o.line = n) : Sound (n + 1) (s.enter o) := by
  have hcc : (s.enter o).result.cc = s.result.cc + 1 := part_enter (·.cc) (fun _ _ _ _ => rfl) s o
  have hdc : (s.enter o).result.dc = s.result.dc + o.dc :=
    part_enter (·.dc) (fun _ _ _ _ => rfl) s o
  have htotal : (s.enter o).result.structures.total = s.result.structures.total + 1 :=
    (part_enter (·.structures.total) (fun b _ _ _ => b.structures.total_noteNested _ _ _) s o).trans
      (s.result.structures.total_record _ _)
  have hlines : (s.enter o).result.lineScores =
      s.result.lineScores.upsert o.line fun m => m.getD 0 + o.dc :=
    part_enter (·.lineScores) (fun _ _ _ _ => rfl) s o
  have hnew : s.result.lineScores.get? o.line = none := by
    rw [ho]
    exact h.get?_eq_none
  refine ⟨h.consistent_enter o, ?_, ?_, ?_, h.recorded_enter o, ?_, ?_⟩
  · rw [hcc, htotal, h.paths, Nat.add_assoc]
  · rw [hlines, SortedMap.length_keys_upsert hnew, hcc, h.lines]
  · intro line hl
    rw [hlines, SortedMap.get?_upsert] at hl
    split at hl
    · omega
    · have := h.before line hl
      omega
  · intro m hm
    obtain ⟨m', hm', rfl⟩ := Option.map_eq_some_iff.mp hm
    exact (h.openMethod m' hm').charge hcc hdc
  · intro c hc
    obtain ⟨c', hc', rfl⟩ := Option.map_eq_some_iff.mp hc
    exact (h.openClass c' hc').charge hcc hdc

/-! ### Opening and closing scopes -/

theorem closeMethod (h : Sound n s) : Sound n s.closeMethod := by
  unfold Scanner.closeMethod
  split
  · exact h
  · next m hm =>
      exact { h with
        consistent := h.consistent.closeMethod (h.openMethod m hm)
        openMethod := fun _ hc => by cases hc
        openClass := fun c hc => (h.openClass c hc).mono (Nat.le_refl _) (Nat.le_refl _) }

theorem closeClass (h : Sound n s) : Sound n s.closeClass := by
  unfold Scanner.closeClass
  split
  · exact h
  · next c hc =>
      exact { h with
        consistent := h.consistent.closeClass (h.openClass c hc)
        openMethod := fun m hm => (h.openMethod m hm).mono (Nat.le_refl _) (Nat.le_refl _)
        openClass := fun _ hc => by cases hc }

theorem closeBlock (h : Sound n s) : Sound n s.closeBlock := by
  have hdrop : Sound n { s with nesting := s.nesting.drop 1 } :=
    { h with recorded := fun k hk => h.recorded k (List.mem_of_mem_drop hk) }
  exact hdrop.closeMethod.closeClass

theorem openMethod_start (h : Sound n s) (name : String) :
    Sound n { s with openMethod := some (.start name) } :=
  { h with
    openMethod := fun m hm => by
      obtain rfl := Option.some.inj hm
      exact ScopeScore.Within.start name h.consistent.one_le_cc }

theorem openClass_start (h : Sound n s) (name : String) :
    Sound n { s with openClass := some (.start name) } :=
  { h with
    openClass := fun c hc => by
      obtain rfl := Option.some.inj hc
      exact ScopeScore.Within.start name h.consistent.one_le_cc }

/-! ### Acts -/

/-- **One act** of line `n`. -/
theorem perform (h : Sound n s) {a : Act} (ha : ∀ o ∈ a.occurrence?, o.line = n) :
    Sound (n + 1) (s.perform a) := by
  cases a with
  | openClass name => exact (h.closeClass.openClass_start name).succ
  | openMethod name => exact (h.openMethod_start name).succ
  | body found closes =>
      have hfound : Sound (n + 1) (found.elim s s.enter) := by
        cases found with
        | none => exact h.succ
        | some o => exact h.enter o (ha o rfl)
      cases closes with
      | false => exact hfound
      | true => exact hfound.closeBlock

end Sound

theorem Sound.readLine {n : Nat} {s : Scanner} (h : Sound n s) (excluded : List String)
    (raw : List Char) : Sound (n + 1) (s.readLine excluded n raw) := by
  rw [readLine_eq]
  cases ha : s.act? excluded n raw with
  | none => exact h.succ
  | some a => exact h.perform fun o ho => (of_mem_act? ha o ho).1

/-- **A whole scan.** -/
theorem sound_readLines {n : Nat} {s : Scanner} (h : Sound n s) (excluded : List String)
    (ls : List (List Char)) : Sound (n + ls.length) (readLines excluded n ls s) := by
  induction ls generalizing n s with
  | nil => exact h
  | cons l ls ih =>
      have hrest := ih (h.readLine excluded l)
      rw [Nat.add_assoc, Nat.add_comm 1] at hrest
      exact hrest

/-- What a scan ends with. -/
theorem Sound.finish {n : Nat} {s : Scanner} (h : Sound n s) :
    s.finish.Consistent ∧ s.finish.OnePerLine := by
  have hclosed := h.closeMethod.closeClass
  refine ⟨hclosed.consistent, hclosed.paths, ?_⟩
  have hlines := hclosed.lines
  show _ = s.closeMethod.closeClass.result.cc - 1
  exact Nat.eq_sub_of_add_eq hlines

end Scanner

/-- A scan by lines is consistent, and scores at most one construct a line. -/
theorem consistent_of_text (language : Language) (extra : List String) (source : String) :
    (breakdown language extra source).Consistent ∧
      (breakdown language extra source).OnePerLine :=
  (Scanner.sound_readLines Scanner.Sound.initial _ _).finish

end DecisionScore.Brace
