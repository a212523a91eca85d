import DecisionScore.Proofs.Brace.Blocks

/-! # Conventional layout

A `Layout` is a text in which the first line of every block is the keyword, the condition and an
opening brace, the closing brace has a line of its own, and so has every label of a switch.  A
block is matched if its first line puts on the stack what its last line takes off.  Where all are,
and there are no labels, a scan leaves the stack as it was and scores every construct at the number
of constructs around it (`scan_layout`).  Blocks of `else` and `try` put nothing on the stack, and
nor does a block whose condition has a closing brace or is taken for a ternary, so they are matched
only where the stack is empty. -/

namespace DecisionScore.Brace

open Scanner

/-! ### First lines -/

/-- A line is not the head of a method if what stands for the type in it is a control word. -/
theorem methodHeader?_eq_none {line : List Char} (excluded : List String)
    (h : ∀ found ∈ signature? (Text.words (line.takeWhile (· != '('))),
      isControlWord found.1 = true) : methodHeader? excluded line = none := by
  unfold methodHeader?
  cases hshape : methodShape? line with
  | none => rfl
  | some found =>
      have hfound : signature? (Text.words (line.takeWhile (· != '('))) = some found := by
        unfold methodShape? at hshape
        split at hshape
        · next hsignature =>
            split at hshape
            · split at hshape
              · cases hshape
                exact hsignature
              · cases hshape
            · cases hshape
        · cases hshape
      simp [h found hfound]

/-- The words that start a block with a condition. -/
inductive Keyword where
  | ifWord
  | elseIf
  | forWord
  | whileWord
  | switchWord
  | catchWord
deriving DecidableEq

namespace Keyword

def word : Keyword → String
  | ifWord => "if"
  | elseIf => "else if"
  | forWord => "for"
  | whileWord => "while"
  | switchWord => "switch"
  | catchWord => "catch"

def kind : Keyword → Construct
  | ifWord => .ifBranch
  | elseIf => .elseIf
  | forWord => .forLoop
  | whileWord => .whileLoop
  | switchWord => .switchHead
  | catchWord => .catchClause

/-- The first line of a block with a condition. -/
def line (k : Keyword) (condition : List Char) : List Char :=
  k.word.toList ++ [' ', '('] ++ condition ++ [')', ' ', '{']

theorem leadingKeyword?_line (k : Keyword) (condition : List Char) :
    leadingKeyword? (k.line condition) = some k.kind := by
  have hspace : Text.isWord ' ' = false := by decide
  have hblank : Text.isBlank ' ' = true := by decide
  have hletter : Text.isBlank 'i' = false := by decide
  cases k <;>
    simp [line, word, kind, leadingKeyword?, startsWithElseIf, startsWithWord, afterWord?, after?,
      continuesWord, afterBlank?, hspace, hblank, hletter]

theorem classHeader?_line (k : Keyword) (condition : List Char) :
    classHeader? (k.line condition) = none := by
  cases k <;>
    simp [line, word, classHeader?, dropModifiers, classModifiers, afterWord?, after?]

/-- The words before the condition are `else if` or a single one. -/
theorem methodHeader?_line (k : Keyword) (condition : List Char) (excluded : List String) :
    methodHeader? excluded (k.line condition) = none := by
  have hbefore : (k.line condition).takeWhile (· != '(') = k.word.toList ++ [' '] := by
    cases k <;> simp [line, word]
  refine methodHeader?_eq_none excluded ?_
  rw [hbefore]
  cases k <;> decide

end Keyword

/-- How a block starts. -/
inductive Opener where
  | headed (keyword : Keyword) (condition : List Char)
  | elseBlock
  | tryBlock

namespace Opener

/-- The first line of a block. -/
def text : Opener → List Char
  | headed keyword condition => keyword.line condition
  | elseBlock => "else ".toList ++ ['{']
  | tryBlock => "try ".toList ++ ['{']

def isSwitch : Opener → Bool
  | headed keyword _ => keyword == .switchWord
  | _ => false

/-- Whether the first line of a block leaves something on the stack: it has a keyword and a
condition, has no closing brace of its own and does not look like a ternary. -/
def pushes : Opener → Bool
  | headed _ condition => !condition.contains '}' && !looksTernary condition
  | _ => false

/-- Whether the first line of a block puts on the stack what the last one takes off, where there
are `depth` constructs on the stack, or there is nothing to take off. -/
def isMatched (depth : Nat) (opener : Opener) : Bool := opener.pushes || depth == 0

/-- The construct that the first line of a block is, unless it is taken for a ternary. -/
def mark? (n depth : Nat) : Opener → Option Occurrence
  | headed keyword condition =>
    if looksTernary condition then none
    else some ⟨n, keyword.kind, depth, keyword.line condition⟩
  | _ => none

/-- The number of constructs around what is inside a block. -/
def below (depth : Nat) (opener : Opener) : Nat := if opener.pushes then depth + 1 else depth

end Opener

/-! ### Texts -/

/-- A line with the given text, indented at will. -/
structure LineOf (text : List Char) where
  raw : List Char
  trimmed : Text.trim raw = text

/-- A label of a switch. -/
def labelText (value : List Char) : List Char := "case ".toList ++ value ++ [':']

/-- A text laid out in the conventional way, which may be directly inside a switch. -/
inductive Layout : Bool → Type where
  | done {inSwitch : Bool} : Layout inSwitch
  | statement {inSwitch : Bool} (line : PlainLine) (rest : Layout inSwitch) : Layout inSwitch
  | label (value : List Char) (line : LineOf (labelText value)) (rest : Layout true) : Layout true
  | block {inSwitch : Bool} (opener : Opener) (first : LineOf opener.text)
      (inner : Layout opener.isSwitch) (last : LineOf ['}']) (rest : Layout inSwitch) :
      Layout inSwitch

namespace Layout

/-- The lines of a text, in order. -/
def lines : {inSwitch : Bool} → Layout inSwitch → List (List Char)
  | _, done => []
  | _, statement line rest => line.raw :: rest.lines
  | _, label _ line rest => line.raw :: rest.lines
  | _, block _ first inner last rest => first.raw :: (inner.lines ++ last.raw :: rest.lines)

/-- The constructs of a text besides ternaries, each with the number of constructs around it.  The
first line has the number `n`, and `depth` constructs are around the whole. -/
def heads (n depth : Nat) : {inSwitch : Bool} → Layout inSwitch → List Occurrence
  | _, done => []
  | _, statement _ rest => rest.heads (n + 1) depth
  | _, label value _ rest => ⟨n, .caseLabel, depth, labelText value⟩ :: rest.heads (n + 1) depth
  | _, block opener _ inner _ rest =>
    (opener.mark? n depth).toList ++
      (inner.heads (n + 1) (opener.below depth) ++ rest.heads (n + 1 + inner.lines.length + 1) depth)

/-- Whether all blocks of a text are matched, and nothing else goes on the stack. -/
def isMatched (depth : Nat) : {inSwitch : Bool} → Layout inSwitch → Bool
  | _, done => true
  | _, statement _ rest => rest.isMatched depth
  | _, label _ _ _ => false
  | _, block opener _ inner _ rest =>
    opener.isMatched depth && inner.isMatched (opener.below depth) && rest.isMatched depth

end Layout

/-! ### Lines of a text -/

/-- The first line of a block with a condition is scored as its keyword or as a ternary, and closes
a block if the condition has a brace. -/
theorem LineOf.act?_eq {keyword : Keyword} {condition : List Char}
    (l : LineOf (keyword.line condition)) (excluded : List String) (s : Scanner) (n : Nat) :
    s.act? excluded n l.raw = some (.body
      (some ⟨n, if looksTernary condition then .ternary else keyword.kind, s.nesting.length,
        keyword.line condition⟩) (condition.contains '}')) := by
  have hkeyword := keyword.leadingKeyword?_line condition
  have hbrace : (keyword.line condition).contains '}' = condition.contains '}' := by
    cases keyword <;> simp [Keyword.line, Keyword.word]
  have hternary : looksTernary (keyword.line condition) = looksTernary condition := by
    cases keyword <;> simp [looksTernary, Keyword.line, Keyword.word]
  have hconstruct : construct? (keyword.line condition) =
      some (if looksTernary condition then .ternary else keyword.kind) := by
    rw [construct?, hternary, hkeyword]
    split <;> rfl
  have hskip : isSkippable (Text.trim l.raw) = false := by
    rw [l.trimmed]
    exact isSkippable_of_keyword hkeyword
  have hclass : classHeader? (Text.trim l.raw) = none := by
    rw [l.trimmed, keyword.classHeader?_line]
  have hmethod : methodHeader? excluded (Text.trim l.raw) = none := by
    rw [l.trimmed, keyword.methodHeader?_line]
  rw [act?_body hskip hclass hmethod, l.trimmed, hconstruct, hbrace, Option.map_some]

/-- A line without a closing brace and without a keyword, as a plain line. -/
def LineOf.plain {text : List Char} (l : LineOf text) (hbrace : '}' ∉ text)
    (hkeyword : leadingKeyword? text = none) : PlainLine where
  raw := l.raw
  plain := .inr (by rw [l.trimmed]; exact ⟨hbrace, .inl hkeyword⟩)

/-- A brace on a line of its own, as a closing line. -/
def LineOf.close (l : LineOf ['}']) (excluded : List String) : CloseLine excluded where
  raw := l.raw
  brace := by simp [l.trimmed]
  no_keyword := by rw [l.trimmed]; rfl
  not_ternary := by rw [l.trimmed]; rfl
  not_skipped := by rw [l.trimmed]; rfl
  not_class := by rw [l.trimmed]; rfl
  not_method := by rw [l.trimmed]; rfl

/-! ### Scanning a text -/

section
variable {excluded : List String}

/-- The step over the first line of a block with a condition: it puts its keyword on the stack
unless it is taken for a ternary, and a brace in it takes one construct off. -/
theorem scan_keyword {keyword : Keyword} {condition : List Char}
    (l : LineOf (keyword.line condition)) (n : Nat) (S : List Construct) :
    Scans excluded n [l.raw] S
      ((if looksTernary condition then S else keyword.kind :: S).drop
        (if condition.contains '}' then 1 else 0))
      ((Opener.headed keyword condition).mark? n S.length).toList := by
  have hkind : keyword.kind ≠ .ternary :=
    leadingKeyword?_ne_ternary (keyword.leadingKeyword?_line condition)
  refine Scans.line (fun s hs => ?_) fun s hs => ?_
  · rw [readLine_eq, l.act?_eq, Option.elim_some, nesting_perform, hs]
    cases hternary : looksTernary condition <;> simp [Act.after, Occurrence.push, hkind]
  · rw [l.act?_eq, hs]
    cases hternary : looksTernary condition <;>
      simp [Act.occurrence?, Opener.mark?, hternary, hkind]

/-- The step over the first line of a matched block: what it puts on the stack is what the next
closing brace takes off. -/
theorem scan_opener (opener : Opener) (first : LineOf opener.text) (n : Nat) (S : List Construct)
    (h : opener.isMatched S.length = true) :
    ∃ S', S'.length = opener.below S.length ∧ S'.drop 1 = S ∧
      Scans excluded n [first.raw] S S' (opener.mark? n S.length).toList := by
  cases opener with
  | headed keyword condition =>
      have hscan := @scan_keyword excluded _ _ first n S
      cases hpushes : (Opener.headed keyword condition).pushes with
      | true =>
          obtain ⟨hbrace, hternary⟩ : condition.contains '}' = false ∧
              looksTernary condition = false := by
            simpa [Opener.pushes] using hpushes
          rw [hbrace, hternary] at hscan
          exact ⟨keyword.kind :: S, by simp [Opener.below, hpushes], rfl, hscan⟩
      | false =>
          obtain rfl : S = [] := by simpa [Opener.isMatched, hpushes] using h
          refine ⟨[], by simp [Opener.below, hpushes], rfl, ?_⟩
          -- without the ternary the line has a brace, which takes off what its keyword put on
          cases hternary : looksTernary condition with
          | true => simpa [hternary] using hscan
          | false =>
              have hbrace : condition.contains '}' = true := by
                simpa [Opener.pushes, hternary] using hpushes
              rwa [hternary, hbrace] at hscan
  | elseBlock =>
      obtain rfl : S = [] := by simpa [Opener.isMatched, Opener.pushes] using h
      exact ⟨[], rfl, rfl, scan_plain (first.plain (by decide) (by decide)) n []⟩
  | tryBlock =>
      obtain rfl : S = [] := by simpa [Opener.isMatched, Opener.pushes] using h
      exact ⟨[], rfl, rfl, scan_plain (first.plain (by decide) (by decide)) n []⟩

/-- **A scan keeps to a matched layout.** -/
theorem scan_layout {inSwitch : Bool} (p : Layout inSwitch) (n : Nat) (S : List Construct)
    (h : p.isMatched S.length = true) : Scans excluded n p.lines S S (p.heads n S.length) := by
  induction p generalizing n S with
  | done => exact Scans.nil
  | statement line rest ih => exact (scan_plain line n S).append (ih (n + 1) S h)
  | label value line rest ih => cases h
  | block opener first inner last rest ih_inner ih_rest =>
      simp only [Layout.isMatched, Bool.and_eq_true] at h
      obtain ⟨⟨hopener, hinner⟩, hrest⟩ := h
      obtain ⟨S', hlength, hdrop, hfirst⟩ := scan_opener opener first n S hopener
      rw [← hlength] at hinner
      have hscan := ih_inner (n + 1) S' hinner
      rw [hlength] at hscan
      have hlast := scan_close (last.close excluded) (n + 1 + inner.lines.length) S'
      rw [hdrop] at hlast
      exact Scans.block hfirst hscan hlast (ih_rest _ S hrest)

end

/-- **Matched layouts leave the stack alone.**  From any state, the scan of a layout whose blocks
are matched ends with the stack it began with.  It scores the constructs of the text at the number
of constructs around them, and what the next line holds at the depth of before. -/
theorem layout_scanned {inSwitch : Bool} (excluded : List String) (p : Layout inSwitch) (n : Nat)
    (s : Scanner) (h : p.isMatched s.nesting.length = true) :
    let t := readLines excluded n p.lines s
    let heads := p.heads n s.nesting.length
    t.nesting = s.nesting ∧
      ((occurrences excluded n p.lines s).filter fun o => o.kind ≠ .ternary) = heads ∧
      (∀ k, k ≠ .ternary → t.result.structures.levels k = s.result.structures.levels k ++
        (heads.filter fun o => o.kind = k).map Occurrence.depth) ∧
      ∀ m raw a, t.act? excluded m raw = some a → ∀ o ∈ a.occurrence?,
        o.depth = s.nesting.length := by
  obtain ⟨hnesting, hmarks⟩ := scan_layout p n s.nesting h s rfl
  refine ⟨hnesting, hmarks, ?_, ?_⟩
  · intro k hk
    rw [levels_eq_marks n p.lines s hk, hmarks]
  · intro m raw a ha o ho
    rw [(of_mem_act? ha o ho).2.1, hnesting]

/-- A block, without indentation. -/
def Layout.flush {inSwitch : Bool} (opener : Opener) (inner : Layout opener.isSwitch)
    (rest : Layout inSwitch) (h : Text.trim opener.text = opener.text := by decide) :
    Layout inSwitch :=
  .block opener ⟨opener.text, h⟩ inner ⟨['}'], by decide⟩ rest

/-- A branch with a loop in it and its alternative, and another loop. -/
def matchedSample : Layout false :=
  .flush (.headed .ifWord ['a'])
    (.flush (.headed .forWord [';', ';']) .done .done)
    (.flush .elseBlock .done
      (.flush (.headed .whileWord ['b']) .done .done))

theorem layout_scanned_sample :
    matchedSample.isMatched Scanner.initial.nesting.length = true ∧
      (readLines [] 1 matchedSample.lines .initial).nesting = [] ∧
      (readLines [] 1 matchedSample.lines .initial).result.structures.levels .forLoop = [1] ∧
      (readLines [] 1 matchedSample.lines .initial).result.structures.levels .whileLoop = [0] := by
  obtain ⟨hnesting, -, hlevels, -⟩ := layout_scanned [] matchedSample 1 .initial (by decide)
  refine ⟨by decide, hnesting, ?_, ?_⟩
  · rw [hlevels .forLoop (by decide)]
    decide
  · rw [hlevels .whileLoop (by decide)]
    decide

/-- Inside a loop. -/
def insideLoop : Scanner := { Scanner.initial with nesting := [.forLoop] }

/-- Blocks of conventional layout that are not matched inside a loop: two that put nothing on the
stack, one that is taken for a ternary, one with a closing brace too many, and a label that is never
taken off. -/
def unmatchedSamples : List (Layout false) :=
  [.flush .elseBlock .done .done,
   .flush .tryBlock .done .done,
   .flush (.headed .ifWord "a ? b : c".toList) .done .done,
   .flush (.headed .ifWord ['c', '=', '=', '\'', '}', '\'']) .done .done,
   .flush (.headed .switchWord ['x']) (.label ['1'] ⟨labelText ['1'], by decide⟩ .done) .done]

/-- Two branches one after the other in two loops, the first with an alternative. -/
def strayElse : Layout false :=
  .flush (.headed .forWord [';', ';'])
    (.flush (.headed .whileWord ['a'])
      (.flush (.headed .ifWord ['b']) .done
        (.flush .elseBlock .done
          (.flush (.headed .ifWord ['c']) .done .done)))
      .done)
    .done

/-- Unmatched blocks change the stack, and what follows them is scored at another depth than that of
the constructs around it. -/
theorem unmatched_layouts :
    (∀ p ∈ unmatchedSamples,
      (readLines [] 1 p.lines insideLoop).nesting ≠ insideLoop.nesting) ∧
    ((strayElse.heads 1 0).filter fun o => o.kind = .ifBranch).map Occurrence.depth = [2, 2] ∧
    (readLines [] 1 strayElse.lines .initial).result.structures.levels .ifBranch = [2, 1] := by
  refine ⟨?_, ?_, ?_⟩
  · decide
  · decide
  · decide

end DecisionScore.Brace
