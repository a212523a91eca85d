import DecisionScore.Proofs.Brace.Lines

/-! # Blocks

A `Body` is a text that has blocks: a block is a head line, a body, and a closing line, and what is
not part of a block is plain.  The kinds of line are told apart by what the scan looks at on a line,
and each kind carries the proof that it is one.  A scan keeps to the blocks: it records every head
line at the depth of its block, and leaves the stack as it was (`scan_body`). -/

namespace DecisionScore.Brace

open Scanner

/-! ### Lines of a body -/

/-- A line that starts a block. -/
structure HeadLine (excluded : List String) where
  raw : List Char
  kind : Construct
  keyword : leadingKeyword? (Text.trim raw) = some kind
  not_label : kind ≠ .caseLabel
  no_brace : '}' ∉ Text.trim raw
  not_ternary : looksTernary (Text.trim raw) = false
  not_class : classHeader? (Text.trim raw) = none
  not_method : methodHeader? excluded (Text.trim raw) = none

/-- A line that neither starts nor ends a block.  It may be blank or a comment; otherwise it has no
closing brace, and starts with no keyword unless it is taken for a ternary. -/
structure PlainLine where
  raw : List Char
  plain : isSkippable (Text.trim raw) = true ∨ '}' ∉ Text.trim raw ∧
    (leadingKeyword? (Text.trim raw) = none ∨ looksTernary (Text.trim raw) = true)

/-- A line that ends a block. -/
structure CloseLine (excluded : List String) where
  raw : List Char
  brace : '}' ∈ Text.trim raw
  no_keyword : leadingKeyword? (Text.trim raw) = none
  not_ternary : looksTernary (Text.trim raw) = false
  not_skipped : isSkippable (Text.trim raw) = false
  not_class : classHeader? (Text.trim raw) = none
  not_method : methodHeader? excluded (Text.trim raw) = none

/-- A text of plain lines and blocks. -/
inductive Body (excluded : List String) where
  | done
  | plain (line : PlainLine) (rest : Body excluded)
  | block (head : HeadLine excluded) (inner : Body excluded) (close : CloseLine excluded)
      (rest : Body excluded)

namespace Body

variable {excluded : List String}

/-- The lines of a text, in order. -/
def lines : Body excluded → List (List Char)
  | done => []
  | plain line rest => line.raw :: rest.lines
  | block head inner close rest => head.raw :: (inner.lines ++ close.raw :: rest.lines)

/-- The head lines of a text, the first line of which has the number `n`, where the blocks that are
not inside another one are at depth `depth`. -/
def heads (n depth : Nat) : Body excluded → List Occurrence
  | done => []
  | plain _ rest => rest.heads (n + 1) depth
  | block head inner _ rest =>
    ⟨n, head.kind, depth, Text.trim head.raw⟩ ::
      (inner.heads (n + 1) (depth + 1) ++ rest.heads (n + 1 + inner.lines.length + 1) depth)

end Body

/-! ### What the lines do -/

theorem isSkippable_of_keyword {line : List Char} {k : Construct}
    (h : leadingKeyword? line = some k) : isSkippable line = false := by
  rw [Bool.eq_false_iff]
  intro hskip
  -- a line that is skipped is empty or starts with a slash or a star, and no keyword does
  have hnone : leadingKeyword? line = none := by
    unfold isSkippable at hskip
    split at hskip
    · rfl
    · simp [leadingKeyword?, startsWithElseIf, startsWithWord, afterWord?, after?]
    · simp [leadingKeyword?, startsWithElseIf, startsWithWord, afterWord?, after?]
    · simp [leadingKeyword?, startsWithElseIf, startsWithWord, afterWord?, after?]
    · cases hskip
  rw [hnone] at h
  cases h

theorem opensMethod?_eq_none {excluded : List String} {line : List Char}
    (h : methodHeader? excluded line = none) (s : Scanner) :
    s.opensMethod? excluded line = none := by
  unfold opensMethod?
  cases s.openMethod with
  | none => exact h
  | some m => rfl

/-- A line that is neither skipped nor a header is read as a line of a body. -/
theorem act?_body {excluded : List String} {raw : List Char}
    (hskip : isSkippable (Text.trim raw) = false) (hclass : classHeader? (Text.trim raw) = none)
    (hmethod : methodHeader? excluded (Text.trim raw) = none) (s : Scanner) (n : Nat) :
    s.act? excluded n raw = some (.body ((construct? (Text.trim raw)).map fun k =>
      ⟨n, k, s.nesting.length, Text.trim raw⟩) ((Text.trim raw).contains '}')) := by
  simp [act?, hskip, hclass, opensMethod?_eq_none hmethod]

section
variable {excluded : List String} (s : Scanner) (n : Nat)

/-- A head line is scored at the depth of the stack. -/
theorem HeadLine.act?_eq (h : HeadLine excluded) : s.act? excluded n h.raw =
    some (.body (some ⟨n, h.kind, s.nesting.length, Text.trim h.raw⟩) false) := by
  rw [act?_body (isSkippable_of_keyword h.keyword) h.not_class h.not_method]
  simp [construct?, h.not_ternary, h.keyword, h.no_brace]

/-- A closing line does nothing but close. -/
theorem CloseLine.act?_eq (c : CloseLine excluded) :
    s.act? excluded n c.raw = some (.body none true) := by
  rw [act?_body c.not_skipped c.not_class c.not_method]
  simp [construct?, c.not_ternary, c.no_keyword, c.brace]

/-- A plain line leaves the stack as it is, and is scored as a ternary if at all. -/
theorem PlainLine.of_act? (l : PlainLine) {a : Act} (h : s.act? excluded n l.raw = some a) :
    a.after s.nesting = s.nesting ∧ ∀ o ∈ a.occurrence?, o.kind = .ternary := by
  simp only [act?] at h
  split at h
  · cases h
  · next hskip =>
      obtain ⟨hbrace, hkey⟩ := l.plain.resolve_left hskip
      split at h
      · cases h
        exact ⟨rfl, fun o ho => by cases ho⟩
      · split at h
        · cases h
          exact ⟨rfl, fun o ho => by cases ho⟩
        · have hconstruct : ∀ k, construct? (Text.trim l.raw) = some k → k = .ternary := by
            intro k hk
            unfold construct? at hk
            split at hk
            · exact (Option.some.inj hk).symm
            · next hternary =>
                rw [hkey.resolve_right hternary] at hk
                cases hk
          have hcontains : (Text.trim l.raw).contains '}' = false := by simpa using hbrace
          rw [hcontains] at h
          cases h
          cases hk : construct? (Text.trim l.raw) with
          | none => exact ⟨rfl, fun o ho => by cases ho⟩
          | some k =>
              obtain rfl := hconstruct k hk
              exact ⟨rfl, fun o ho => by cases ho; rfl⟩

end

/-! ### Scanning a body -/

section
variable (excluded : List String)

/-- The constructs other than ternaries that a scan scores, in order. -/
def marks (n : Nat) (ls : List (List Char)) (s : Scanner) : List Occurrence :=
  (occurrences excluded n ls s).filter fun o => o.kind ≠ .ternary

/-- Lines that, read from line `n` on, take a stack to another one and score the given constructs
besides ternaries, whatever the rest of the state. -/
def Scans (n : Nat) (ls : List (List Char)) (stack stack' : List Construct)
    (os : List Occurrence) : Prop :=
  ∀ s : Scanner, s.nesting = stack →
    (readLines excluded n ls s).nesting = stack' ∧ marks excluded n ls s = os

variable {excluded}

/-- The levels that a scan adds are the depths of the constructs. -/
theorem levels_eq_marks (n : Nat) (ls : List (List Char)) (s : Scanner) {k : Construct}
    (hk : k ≠ .ternary) : (readLines excluded n ls s).result.structures.levels k =
      s.result.structures.levels k ++
        ((marks excluded n ls s).filter fun o => o.kind = k).map Occurrence.depth := by
  rw [levels_readLines, marks, List.filter_filter]
  congr 3
  funext o
  by_cases h : o.kind = k
  · simp [h, hk]
  · simp [h]

variable {n : Nat} {S S' S'' : List Construct}

theorem Scans.nil : Scans excluded n [] S S [] := fun _ hs => ⟨hs, rfl⟩

/-- What one line scans as is said by its act. -/
theorem Scans.line {raw : List Char} {os : List Occurrence}
    (hafter : ∀ s : Scanner, s.nesting = S → (s.readLine excluded n raw).nesting = S')
    (hos : ∀ s : Scanner, s.nesting = S →
      (((s.act? excluded n raw).bind Act.occurrence?).toList.filter fun o => o.kind ≠ .ternary) =
        os) : Scans excluded n [raw] S S' os := by
  intro s hs
  refine ⟨hafter s hs, ?_⟩
  rw [marks, occurrences_cons, List.filter_append, hos s hs]
  exact List.append_nil os

theorem Scans.append {ls ms : List (List Char)} {os ps : List Occurrence}
    (h : Scans excluded n ls S S' os) (h' : Scans excluded (n + ls.length) ms S' S'' ps) :
    Scans excluded n (ls ++ ms) S S'' (os ++ ps) := by
  intro s hs
  obtain ⟨hstack, hos⟩ := h s hs
  obtain ⟨hstack', hps⟩ := h' (readLines excluded n ls s) hstack
  refine ⟨by rw [readLines_append, hstack'], ?_⟩
  rw [marks, occurrences_append, List.filter_append, ← marks, ← marks, hos, hps]

/-- A block, and what follows it: the last line takes off the stack what the first has put on. -/
theorem Scans.block {first last : List Char} {inner rest : List (List Char)}
    {os is rs : List Occurrence} (hfirst : Scans excluded n [first] S S' os)
    (hinner : Scans excluded (n + 1) inner S' S' is)
    (hlast : Scans excluded (n + 1 + inner.length) [last] S' S [])
    (hrest : Scans excluded (n + 1 + inner.length + 1) rest S S rs) :
    Scans excluded n (first :: (inner ++ last :: rest)) S S (os ++ (is ++ rs)) :=
  hfirst.append (hinner.append (hlast.append hrest))

/-- The step over a plain line. -/
theorem scan_plain (l : PlainLine) (n : Nat) (S : List Construct) :
    Scans excluded n [l.raw] S S [] := by
  refine Scans.line (fun s hs => ?_) fun s _ => ?_
  · rw [readLine_eq]
    cases ha : s.act? excluded n l.raw with
    | none => exact hs
    | some a =>
        rw [Option.elim_some, nesting_perform, (l.of_act? s n ha).1, hs]
  · cases ha : s.act? excluded n l.raw with
    | none => rfl
    | some a =>
        rw [Option.bind_some, List.filter_eq_nil_iff]
        intro o ho
        simp [(l.of_act? s n ha).2 o (Option.mem_toList.mp ho)]

/-- The step over a head line. -/
theorem scan_head (h : HeadLine excluded) (n : Nat) (S : List Construct) :
    Scans excluded n [h.raw] S (h.kind :: S) [⟨n, h.kind, S.length, Text.trim h.raw⟩] := by
  have hk := leadingKeyword?_ne_ternary h.keyword
  refine Scans.line (fun s hs => ?_) fun s hs => ?_
  · rw [readLine_eq, h.act?_eq, Option.elim_some, nesting_perform, hs]
    simp [Act.after, Occurrence.push, hk]
  · rw [h.act?_eq, hs]
    simp [Act.occurrence?, hk]

/-- The step over a closing line. -/
theorem scan_close (c : CloseLine excluded) (n : Nat) (S : List Construct) :
    Scans excluded n [c.raw] S (S.drop 1) [] := by
  refine Scans.line (fun s hs => ?_) fun s _ => ?_
  · rw [readLine_eq, c.act?_eq, Option.elim_some, nesting_perform, hs]
    rfl
  · rw [c.act?_eq]
    rfl

/-- **A scan keeps to the blocks.**  From any state, the scan of a body leaves the stack as it was
and scores its head lines, each at the depth of its block. -/
theorem scan_body (p : Body excluded) (n : Nat) (S : List Construct) :
    Scans excluded n p.lines S S (p.heads n S.length) := by
  induction p generalizing n S with
  | done => exact Scans.nil
  | plain line rest ih => exact (scan_plain line n S).append (ih (n + 1) S)
  | block head inner close rest ih_inner ih_rest =>
      exact Scans.block (scan_head head n S) (ih_inner (n + 1) (head.kind :: S))
        (scan_close close _ (head.kind :: S)) (ih_rest _ S)

/-- **Blocks are scored at their depth.**  The scan of a body, from any state, leaves the stack as
it was.  The constructs it records besides ternaries are the head lines, each at the depth of the
stack plus the number of blocks around it, and each head line adds to the score of its own line the
product of its depth, at least one, its base weight and the tokens of its condition. -/
theorem blocks_scanned (p : Body excluded) (n : Nat) (s : Scanner) :
    let t := readLines excluded n p.lines s
    let heads := p.heads n s.nesting.length
    t.nesting = s.nesting ∧
      ((occurrences excluded n p.lines s).filter fun o => o.kind ≠ .ternary) = heads ∧
      (∀ k, k ≠ .ternary → t.result.structures.levels k = s.result.structures.levels k ++
        (heads.filter fun o => o.kind = k).map Occurrence.depth) ∧
      ∀ o ∈ heads, t.result.lineScore o.line = s.result.lineScore o.line +
        max o.depth 1 * o.kind.baseWeight * (textWeight (conditionText o.text o.kind)).total := by
  obtain ⟨hnesting, hmarks⟩ := scan_body p n s.nesting s rfl
  refine ⟨hnesting, hmarks, ?_, ?_⟩
  · intro k hk
    rw [levels_eq_marks n p.lines s hk, hmarks]
  · intro o ho
    rw [← hmarks] at ho
    rw [lineScore_readLines, filter_line_occurrences excluded (List.mem_filter.mp ho).1,
      List.map_singleton, List.sum_singleton]
    rfl

end

/-- A loop in a loop. -/
def nestedLoops : Body [] :=
  let head : HeadLine [] := ⟨"for (;;) ".toList ++ ['{'], .forLoop, by decide, by decide,
    by decide, by decide, by decide, by decide⟩
  let close : CloseLine [] := ⟨['}'], by decide, by decide, by decide, by decide, by decide,
    by decide⟩
  .block head (.block head .done close .done) close .done

theorem blocks_scanned_sample :
    (readLines [] 1 nestedLoops.lines .initial).nesting = [] ∧
      (readLines [] 1 nestedLoops.lines .initial).result.structures.levels .forLoop = [0, 1] := by
  obtain ⟨hnesting, -, hlevels, -⟩ := blocks_scanned nestedLoops 1 .initial
  refine ⟨hnesting, ?_⟩
  rw [hlevels .forLoop (by decide)]
  decide

end DecisionScore.Brace
