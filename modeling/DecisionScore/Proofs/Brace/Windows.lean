import Mathlib.Algebra.BigOperators.Group.List.Basic
import DecisionScore.Proofs.Brace.Lines

/-! # The windows of methods and classes

A method is open from its head to the first closing brace on a line of a body, a class to the next
class head or closing brace, and both at most to the end of the text.  The lines for which a scope
is open are its `Window`.  The windows are read off the kinds of the lines alone, and no two of one
kind overlap (`pairwise_windows`).  A scan keeps one open method and one open class, each in a
register; it charges them for the constructs of their windows, and stores each scope under its name
when it closes (`closed_readLines`). -/

namespace DecisionScore.Brace

open Scanner

/-! ### Kinds of line -/

/-- What a line is to methods and classes. -/
inductive LineKind where
  | skipped
  | classHead (name : String)
  | methodHead (name : String)
  /-- A line of a body, and whether it has a closing brace. -/
  | body (closes : Bool)
deriving DecidableEq

/-- The kind of a line, given whether a method is open. -/
def lineKind (excluded : List String) (inMethod : Bool) (raw : List Char) : LineKind :=
  let line := Text.trim raw
  if isSkippable line then .skipped
  else
    match classHeader? line with
    | some name => .classHead name
    | none =>
      match if inMethod then none else methodHeader? excluded line with
      | some name => .methodHead name
      | none => .body (line.contains '}')

/-- The two kinds of scope, each with a register for the one that is open. -/
inductive Register where
  | methods
  | classes

namespace Register

/-- The name of the scope that a line opens. -/
def opens? : Register → LineKind → Option String
  | methods, .methodHead name => some name
  | classes, .classHead name => some name
  | _, _ => none

/-- Whether a line ends the scope that is open. -/
def ends : Register → LineKind → Bool
  | _, .body closes => closes
  | classes, .classHead _ => true
  | _, _ => false

end Register

/-- Whether a method is open after a line of the given kind. -/
def inMethodAfter (inMethod : Bool) (k : LineKind) : Bool :=
  (Register.methods.opens? k).isSome || (inMethod && !Register.methods.ends k)

/-- The kinds of the lines of a text, given whether a method is open before it. -/
def lineKinds (excluded : List String) : Bool → List (List Char) → List LineKind
  | _, [] => []
  | inMethod, l :: ls =>
    lineKind excluded inMethod l ::
      lineKinds excluded (inMethodAfter inMethod (lineKind excluded inMethod l)) ls

/-! ### Windows -/

/-- A scope of a text: the line of its head, and the line that closes it, which is one past the last
line where none does. -/
structure Window where
  name : String
  head : Nat
  close : Nat

namespace Window

/-- Whether a line is one for which the scope is open. -/
def covers (w : Window) (line : Nat) : Bool := w.head < line && line ≤ w.close

/-- The constructs on the lines of a window. -/
def inside (w : Window) (os : List Occurrence) : List Occurrence :=
  os.filter fun o => w.covers o.line

/-- The score of a scope: what the constructs in its window contribute, and one path more than
there are of them. -/
def score (w : Window) (os : List Occurrence) : ScopeScore :=
  ⟨((w.inside os).map Occurrence.dc).sum, 1 + (w.inside os).length⟩

end Window

/-- The scopes that lines of the given kinds open, in order; the first line has the number `n`. -/
def windows (r : Register) : Nat → List LineKind → List Window
  | _, [] => []
  | n, k :: ks =>
    ((r.opens? k).map fun name => ⟨name, n, n + 1 + ks.findIdx r.ends⟩).toList ++
      windows r (n + 1) ks

theorem le_head_of_mem {r : Register} {n : Nat} {ks : List LineKind} {w : Window}
    (h : w ∈ windows r n ks) : n ≤ w.head := by
  induction ks generalizing n with
  | nil => cases h
  | cons k ks ih =>
      rw [windows, List.mem_append, Option.mem_toList] at h
      rcases h with h | h
      · obtain ⟨name, -, rfl⟩ := Option.map_eq_some_iff.mp h
        exact Nat.le_refl n
      · exact Nat.le_of_succ_le (ih h)

/-- A method head counts only where no method is open. -/
theorem opens?_methods_of_inMethod (excluded : List String) (raw : List Char) :
    Register.methods.opens? (lineKind excluded true raw) = none := by
  unfold lineKind
  simp only [if_true]
  split
  · rfl
  · split <;> rfl

/-- A class head ends the class before it, and a method head counts only where no method is open. -/
theorem opens?_eq_none {r : Register} {excluded : List String} {inMethod : Bool} {raw : List Char}
    (hin : r = .methods → inMethod = true)
    (hends : r.ends (lineKind excluded inMethod raw) = false) :
    r.opens? (lineKind excluded inMethod raw) = none := by
  cases r with
  | methods =>
      rw [hin rfl]
      exact opens?_methods_of_inMethod excluded raw
  | classes =>
      revert hends
      cases lineKind excluded inMethod raw <;> simp [Register.ends, Register.opens?]

/-- While a scope is open, no other of its kind is opened before the line that ends it. -/
theorem findIdx_le_head {r : Register} {excluded : List String} {inMethod : Bool} {n : Nat}
    {ls : List (List Char)} (hin : r = .methods → inMethod = true) {w : Window}
    (h : w ∈ windows r n (lineKinds excluded inMethod ls)) :
    n + (lineKinds excluded inMethod ls).findIdx r.ends ≤ w.head := by
  induction ls generalizing inMethod n with
  | nil => cases h
  | cons l ls ih =>
      have hle := le_head_of_mem h
      rw [lineKinds] at h ⊢
      rw [List.findIdx_cons]
      cases hends : r.ends (lineKind excluded inMethod l) with
      | true => exact hle
      | false =>
          rw [windows, opens?_eq_none hin hends] at h
          have hnext : r = .methods →
              inMethodAfter inMethod (lineKind excluded inMethod l) = true := by
            rintro rfl
            rw [inMethodAfter, hends, hin rfl]
            exact Bool.or_true _
          have := ih hnext h
          rw [cond_false]
          omega

/-- **Windows do not overlap**: each is closed before the next one is opened. -/
theorem pairwise_windows (r : Register) (excluded : List String) (inMethod : Bool) (n : Nat)
    (ls : List (List Char)) :
    (windows r n (lineKinds excluded inMethod ls)).Pairwise fun w v => w.close ≤ v.head := by
  induction ls generalizing inMethod n with
  | nil => exact .nil
  | cons l ls ih =>
      rw [lineKinds, windows]
      cases hopens : r.opens? (lineKind excluded inMethod l) with
      | none => exact ih _ _
      | some name =>
          refine List.pairwise_cons.mpr ⟨fun v hv => ?_, ih _ _⟩
          refine findIdx_le_head ?_ hv
          rintro rfl
          simp [inMethodAfter, hopens]

/-- A line is in at most one window. -/
theorem length_covers_le {ws : List Window} (h : ws.Pairwise fun w v => w.close ≤ v.head)
    (line : Nat) : (ws.filter fun w => w.covers line).length ≤ 1 := by
  have hpair := h.filter fun w => w.covers line
  have hcovers : ∀ w ∈ ws.filter (fun w => w.covers line), w.covers line = true :=
    fun w hw => (List.mem_filter.mp hw).2
  cases hws : ws.filter fun w => w.covers line with
  | nil => exact Nat.zero_le 1
  | cons w rest =>
      cases rest with
      | nil => exact Nat.le_refl 1
      | cons v rest =>
          -- two windows that have the line in common would overlap
          rw [hws] at hpair hcovers
          have hw := hcovers w List.mem_cons_self
          have hv := hcovers v (List.mem_cons_of_mem w List.mem_cons_self)
          have hle := (List.pairwise_cons.mp hpair).1 v List.mem_cons_self
          simp only [Window.covers, Bool.and_eq_true, decide_eq_true_eq] at hw hv
          omega

/-- Whether a method is open at a line: it has been from the start, or the line is in the window of
one that was opened later. -/
def inMethodAt (inMethod : Bool) (n : Nat) (ks : List LineKind) (i : Nat) : Bool :=
  (inMethod && decide (i ≤ ks.findIdx Register.methods.ends)) ||
    (windows .methods n ks).any fun w => w.covers (n + i)

theorem inMethodAt_zero (inMethod : Bool) (n : Nat) (ks : List LineKind) :
    inMethodAt inMethod n ks 0 = inMethod := by
  have hnone : ((windows .methods n ks).any fun w => w.covers (n + 0)) = false := by
    rw [List.any_eq_false]
    intro w hw
    have := le_head_of_mem hw
    simp only [Window.covers, Bool.and_eq_true, decide_eq_true_eq, not_and]
    omega
  rw [inMethodAt, hnone]
  simp

theorem inMethodAt_succ {inMethod : Bool} {k : LineKind}
    (h : inMethod = true → Register.methods.opens? k = none) (n : Nat) (ks : List LineKind)
    (i : Nat) : inMethodAt inMethod n (k :: ks) (i + 1) =
      inMethodAt (inMethodAfter inMethod k) (n + 1) ks i := by
  have hline : n + (i + 1) = n + 1 + i := by omega
  unfold inMethodAt
  rw [windows, List.any_append, List.findIdx_cons, hline, inMethodAfter]
  cases hopens : Register.methods.opens? k with
  | none => cases Register.methods.ends k <;> simp
  | some name =>
      obtain rfl : inMethod = false := by
        rw [← Bool.not_eq_true]
        intro hin
        rw [h hin] at hopens
        cases hopens
      have hcovers : Window.covers ⟨name, n, n + 1 + ks.findIdx Register.methods.ends⟩ (n + 1 + i) =
          decide (i ≤ ks.findIdx Register.methods.ends) := by
        simp only [Window.covers]
        grind
      simp [hcovers]

/-- **A method is open just in its window**: which kind a line is of depends on whether it is in the
window of a method. -/
theorem getElem?_lineKinds {excluded : List String} {inMethod : Bool} {n i : Nat}
    {ls : List (List Char)} {raw : List Char} (h : ls[i]? = some raw) :
    (lineKinds excluded inMethod ls)[i]? = some (lineKind excluded
      (inMethodAt inMethod n (lineKinds excluded inMethod ls) i) raw) := by
  induction ls generalizing inMethod n i with
  | nil => simp at h
  | cons l ls ih =>
      cases i with
      | zero =>
          obtain rfl : l = raw := by simpa using h
          rw [inMethodAt_zero]
          rfl
      | succ i =>
          have hnone : inMethod = true →
              Register.methods.opens? (lineKind excluded inMethod l) = none := by
            rintro rfl
            exact opens?_methods_of_inMethod excluded l
          rw [lineKinds, inMethodAt_succ hnone, List.getElem?_cons_succ]
          exact ih (by simpa using h)

/-! ### One line of a scan -/

/-- The kind of line an act belongs to. -/
def Act.kind : Option Act → LineKind
  | none => .skipped
  | some (.openClass name) => .classHead name
  | some (.openMethod name) => .methodHead name
  | some (.body _ closes) => .body closes

theorem kind_act? (excluded : List String) (s : Scanner) (n : Nat) (raw : List Char) :
    Act.kind (s.act? excluded n raw) = lineKind excluded s.openMethod.isSome raw := by
  unfold act? lineKind
  by_cases hskip : isSkippable (Text.trim raw) = true
  · simp only [hskip, if_true]
    rfl
  · simp only [hskip, if_false, Bool.false_eq_true]
    cases classHeader? (Text.trim raw) with
    | some name => rfl
    | none =>
        unfold opensMethod?
        cases s.openMethod with
        | some m => rfl
        | none =>
            simp only [Option.isSome_none, Bool.false_eq_true, if_false]
            cases methodHeader? excluded (Text.trim raw) <;> rfl

/-- A scope after it was charged for constructs. -/
def chargeAll (c : Scope) (os : List Occurrence) : Scope :=
  ⟨c.name, ⟨c.score.dc + (os.map Occurrence.dc).sum, c.score.cc + os.length⟩⟩

theorem map_chargeAll_nil (c : Option Scope) : (c.map fun c => chargeAll c []) = c := by
  cases c <;> rfl

theorem chargeAll_append (c : Scope) (os ps : List Occurrence) :
    chargeAll c (os ++ ps) = chargeAll (chargeAll c os) ps := by
  simp [chargeAll, Nat.add_assoc]

/-- Stores closed scopes under their names. -/
def store (m : SortedMap String ScopeScore) (cs : List Scope) : SortedMap String ScopeScore :=
  cs.foldl (fun m c => m.insert c.name c.score) m

theorem store_append (m : SortedMap String ScopeScore) (cs ds : List Scope) :
    store m (cs ++ ds) = store (store m cs) ds := List.foldl_append

namespace Register

/-- The open scope of a scan. -/
def pending : Register → Scanner → Option Scope
  | methods, s => s.openMethod
  | classes, s => s.openClass

/-- The closed scopes of a breakdown, by name. -/
def closed : Register → Breakdown → SortedMap String ScopeScore
  | methods, b => b.methods
  | classes, b => b.classes

end Register

section
variable (r : Register) (s : Scanner)

/-- Scoring a construct, if there is one, charges the open scope for it. -/
theorem pending_enter (found : Option Occurrence) : r.pending (found.elim s s.enter) =
    (r.pending s).map fun c => chargeAll c found.toList := by
  cases found with
  | none => exact (map_chargeAll_nil _).symm
  | some o => cases r <;> rfl

theorem closed_enter (found : Option Occurrence) :
    r.closed (found.elim s s.enter).result = r.closed s.result := by
  cases found with
  | none => rfl
  | some o =>
      cases r with
      | methods => exact part_enter (·.methods) (fun _ _ _ _ => rfl) s o
      | classes => exact part_enter (·.classes) (fun _ _ _ _ => rfl) s o

theorem pending_closeBoth : r.pending s.closeMethod.closeClass = none := by
  unfold Scanner.closeMethod Scanner.closeClass
  cases r <;> cases hm : s.openMethod <;> cases hc : s.openClass <;>
    simp_all [Register.pending]

/-- Closing what is open stores it. -/
theorem closed_closeBoth : r.closed s.closeMethod.closeClass.result =
    store (r.closed s.result) (r.pending s).toList := by
  unfold Scanner.closeMethod Scanner.closeClass
  cases r <;> cases hm : s.openMethod <;> cases hc : s.openClass <;>
    simp_all [Register.pending, Register.closed, store, Breakdown.closeMethod,
      Breakdown.closeClass]

theorem closed_closeBlock : r.closed s.closeBlock.result =
    store (r.closed s.result) (r.pending s).toList := by
  cases r <;> exact closed_closeBoth _ _

/-- The register after an act: a scope that is opened, or else the one that was open, charged for
what the act scores, unless the act ends it. -/
theorem pending_perform (a : Act) : r.pending (s.perform a) =
    ((r.opens? (Act.kind (some a))).map Scope.start).or
      (if r.ends (Act.kind (some a)) then none
        else (r.pending s).map fun c => chargeAll c a.occurrence?.toList) := by
  cases a with
  | openClass name =>
      cases r with
      | methods =>
          have hkeep : s.closeClass.openMethod = s.openMethod := by
            unfold Scanner.closeClass
            split <;> rfl
          exact hkeep.trans (map_chargeAll_nil _).symm
      | classes => rfl
  | openMethod name =>
      cases r with
      | methods => rfl
      | classes => exact (map_chargeAll_nil _).symm
  | body found closes =>
      cases closes with
      | false => cases r <;> exact pending_enter _ s found
      | true => cases r <;> exact pending_closeBoth _ _

/-- The stored scopes after an act: an act that ends a scope stores it. -/
theorem closed_perform (a : Act) : r.closed (s.perform a).result =
    if r.ends (Act.kind (some a)) then
      store (r.closed s.result)
        ((r.pending s).map fun c => chargeAll c a.occurrence?.toList).toList
    else r.closed s.result := by
  cases a with
  | openClass name =>
      unfold perform Scanner.closeClass
      cases r with
      | methods => cases s.openClass <;> rfl
      | classes =>
          have hnil := map_chargeAll_nil s.openClass
          cases hc : s.openClass with
          | none => simp [Register.closed, Register.pending, store, hc]
          | some c =>
              rw [hc] at hnil
              simp only [Register.closed, Register.pending, hc, Act.occurrence?, Option.toList_none,
                hnil]
              rfl
  | openMethod name => cases r <;> rfl
  | body found closes =>
      cases closes with
      | false => cases r <;> exact closed_enter _ s found
      | true =>
          have hblock := closed_closeBlock r (found.elim s s.enter)
          rw [closed_enter, pending_enter] at hblock
          cases r <;> exact hblock

end

/-! ### A whole scan -/

section
variable (excluded : List String) (r : Register) (s : Scanner) (n : Nat) (raw : List Char)

/-- The construct that a line scores, if any. -/
def found? : Option Occurrence := (s.act? excluded n raw).bind Act.occurrence?

theorem pending_readLine : r.pending (s.readLine excluded n raw) =
    ((r.opens? (lineKind excluded s.openMethod.isSome raw)).map Scope.start).or
      (if r.ends (lineKind excluded s.openMethod.isSome raw) then none
        else (r.pending s).map fun c => chargeAll c (found? excluded s n raw).toList) := by
  rw [← kind_act? excluded s n raw, readLine_eq, found?]
  cases s.act? excluded n raw with
  | none => cases r <;> exact (map_chargeAll_nil _).symm
  | some a => exact pending_perform r s a

theorem closed_readLine : r.closed (s.readLine excluded n raw).result =
    if r.ends (lineKind excluded s.openMethod.isSome raw) then
      store (r.closed s.result)
        ((r.pending s).map fun c => chargeAll c (found? excluded s n raw).toList).toList
    else r.closed s.result := by
  rw [← kind_act? excluded s n raw, readLine_eq, found?]
  cases s.act? excluded n raw with
  | none => cases r <;> rfl
  | some a => exact closed_perform r s a

theorem isSome_openMethod_readLine : (s.readLine excluded n raw).openMethod.isSome =
    inMethodAfter s.openMethod.isSome (lineKind excluded s.openMethod.isSome raw) := by
  have hpending := pending_readLine excluded .methods s n raw
  have hpending : (s.readLine excluded n raw).openMethod = _ := hpending
  rw [hpending, inMethodAfter]
  cases Register.methods.opens? (lineKind excluded s.openMethod.isSome raw) with
  | some name => rfl
  | none =>
      cases Register.methods.ends (lineKind excluded s.openMethod.isSome raw) with
      | true => simp
      | false => simp [Register.pending]

end

theorem line_found? {excluded : List String} {s : Scanner} {n : Nat} {raw : List Char} :
    ∀ o ∈ (found? excluded s n raw).toList, o.line = n := by
  intro o ho
  obtain ⟨a, ha, hoa⟩ := Option.bind_eq_some_iff.mp (Option.mem_toList.mp ho)
  exact (of_mem_act? ha o hoa).1

/-- The scope of a window as it is stored. -/
def Window.scope (w : Window) (os : List Occurrence) : Scope := ⟨w.name, w.score os⟩

/-- Constructs on lines before a window do not count for it. -/
theorem scope_append {w : Window} {os ps : List Occurrence} (h : ∀ o ∈ os, o.line ≤ w.head) :
    w.scope (os ++ ps) = w.scope ps := by
  have hnil : w.inside os = [] := by
    refine List.filter_eq_nil_iff.mpr fun o ho => ?_
    have := h o ho
    simp only [Window.covers, Bool.and_eq_true, decide_eq_true_eq, not_and]
    omega
  have hinside : w.inside (os ++ ps) = w.inside ps := by
    unfold Window.inside at hnil ⊢
    rw [List.filter_append, hnil, List.nil_append]
  unfold Window.scope Window.score
  rw [hinside]

/-- A scope that has just been opened, charged for what is on the lines of its window. -/
theorem chargeAll_start {n close : Nat} {os : List Occurrence} (name : String)
    (h : ∀ o ∈ os, n < o.line) :
    chargeAll (.start name) (os.filter fun o => o.line ≤ close) =
      Window.scope ⟨name, n, close⟩ os := by
  have hinside : (os.filter fun o => o.line ≤ close) = Window.inside ⟨name, n, close⟩ os := by
    refine List.filter_congr fun o ho => ?_
    simp [Window.covers, h o ho]
  unfold chargeAll Window.scope Window.score
  rw [hinside]
  simp [Scope.start, ScopeScore.baseline]

/-- A line that opens a scope without ending one finds the register empty. -/
theorem pending_eq_none {excluded : List String} {r : Register} {s : Scanner} {raw : List Char}
    {name : String} (hopens : r.opens? (lineKind excluded s.openMethod.isSome raw) = some name)
    (hends : r.ends (lineKind excluded s.openMethod.isSome raw) = false) : r.pending s = none := by
  cases hpending : r.pending s with
  | none => rfl
  | some c =>
      have hin : r = .methods → s.openMethod.isSome = true := by
        rintro rfl
        exact Option.isSome_iff_exists.mpr ⟨c, hpending⟩
      rw [opens?_eq_none hin hends] at hopens
      cases hopens

/-- The scopes that lines of the given kinds close, in order: the one that is open at the start, if
any, charged up to the line that ends it, and then the scope of every window. -/
def scopesClosed (r : Register) (n : Nat) (ks : List LineKind) (os : List Occurrence)
    (pending : Option Scope) : List Scope :=
  (pending.map fun c =>
      chargeAll c (os.filter fun o => o.line ≤ n + ks.findIdx r.ends)).toList ++
    (windows r n ks).map fun w => w.scope os

/-- The step over the first line, on which stand the constructs `found` and before which the scope
`pending` is open. -/
theorem scopesClosed_cons {r : Register} {n : Nat} {k : LineKind} {found os : List Occurrence}
    {pending : Option Scope} (ks : List LineKind) (hfound : ∀ o ∈ found, o.line = n)
    (hafter : ∀ o ∈ os, n < o.line)
    (hempty : ∀ name, r.opens? k = some name → r.ends k = false → pending = none) :
    scopesClosed r n (k :: ks) (found ++ os) pending =
      (if r.ends k then (pending.map fun c => chargeAll c found).toList else []) ++
        scopesClosed r (n + 1) ks os (((r.opens? k).map Scope.start).or
          (if r.ends k then none else pending.map fun c => chargeAll c found)) := by
  -- the constructs of this line are before all later windows
  have hwindows : ((windows r (n + 1) ks).map fun w => w.scope (found ++ os)) =
      (windows r (n + 1) ks).map fun w => w.scope os := by
    refine List.map_congr_left fun w hw => scope_append fun o ho => ?_
    rw [hfound o ho]
    exact Nat.le_of_succ_le (le_head_of_mem hw)
  have hopened : ∀ name close, Window.scope ⟨name, n, close⟩ (found ++ os) =
      chargeAll (.start name) (os.filter fun o => o.line ≤ close) := by
    intro name close
    rw [chargeAll_start name hafter]
    exact scope_append fun o ho => Nat.le_of_eq (hfound o ho)
  have hself : ∀ close, n ≤ close → (found.filter fun o => o.line ≤ close) = found :=
    fun close hclose => List.filter_eq_self.mpr fun o ho => by simpa [hfound o ho] using hclose
  unfold scopesClosed
  rw [windows, List.map_append, hwindows, List.findIdx_cons]
  cases hends : r.ends k with
  | true =>
      have hnil : (os.filter fun o => o.line ≤ n) = [] :=
        List.filter_eq_nil_iff.mpr fun o ho => by simpa using hafter o ho
      have hcharged : ((found ++ os).filter fun o => o.line ≤ n + 0) = found := by
        rw [List.filter_append, Nat.add_zero, hself n (Nat.le_refl n), hnil, List.append_nil]
      simp only [if_true, cond_true, hcharged, Option.or_none]
      cases r.opens? k with
      | none => rfl
      | some name => simp only [Option.map_some, Option.toList_some, List.map_singleton, hopened]
  | false =>
      have hcharged : ((found ++ os).filter fun o => o.line ≤ n + (ks.findIdx r.ends + 1)) =
          found ++ os.filter fun o => o.line ≤ n + 1 + ks.findIdx r.ends := by
        rw [List.filter_append, hself _ (Nat.le_add_right n _), Nat.add_assoc, Nat.add_comm 1]
      simp only [Bool.false_eq_true, if_false, cond_false, List.nil_append]
      cases hopens : r.opens? k with
      | none =>
          simp only [hcharged, chargeAll_append, Option.map_none, Option.none_or, Option.map_map]
          rfl
      | some name =>
          rw [hempty name hopens hends]
          simp only [Option.map_some, Option.map_none, Option.toList_some, Option.toList_none,
            List.map_singleton, hopened, Option.some_or]
          rfl

/-- **A whole scan** stores the scopes that the lines close. -/
theorem closed_readLines (excluded : List String) (r : Register) (n : Nat) (ls : List (List Char))
    (s : Scanner) : r.closed (readLines excluded n ls s).finish = store (r.closed s.result)
      (scopesClosed r n (lineKinds excluded s.openMethod.isSome ls) (occurrences excluded n ls s)
        (r.pending s)) := by
  induction ls generalizing n s with
  | nil =>
      have hboth := closed_closeBoth r s
      rw [← map_chargeAll_nil (r.pending s)] at hboth
      simpa [finish, occurrences, acts, lineKinds, windows, readLines, scopesClosed] using hboth
  | cons l ls ih =>
      have hrest := ih (n + 1) (s.readLine excluded n l)
      rw [isSome_openMethod_readLine, pending_readLine, closed_readLine] at hrest
      have hos : occurrences excluded n (l :: ls) s = (found? excluded s n l).toList ++
          occurrences excluded (n + 1) ls (s.readLine excluded n l) := occurrences_cons ..
      rw [lineKinds, hos, scopesClosed_cons _ line_found?
        (fun o ho => le_line_of_mem_occurrences excluded ho) fun name => pending_eq_none,
        readLines, hrest, store_append]
      cases r.ends (lineKind excluded s.openMethod.isSome l) <;> rfl

/-! ### Totals -/

theorem sum_covers (ws : List Window) (line k : Nat) :
    (ws.map fun w => if w.covers line then k else 0).sum =
      (ws.filter fun w => w.covers line).length * k := by
  induction ws with
  | nil => simp
  | cons w ws ih => cases hw : w.covers line <;> simp [hw, ih, Nat.add_mul, Nat.add_comm]

/-- Windows that do not overlap hold no more, together, than there is. -/
theorem sum_inside_le {ws : List Window} (h : ws.Pairwise fun w v => w.close ≤ v.head)
    (g : Occurrence → Nat) (os : List Occurrence) :
    (ws.map fun w => ((w.inside os).map g).sum).sum ≤ (os.map g).sum := by
  induction os with
  | nil => simp [Window.inside]
  | cons o os ih =>
      have hone := length_covers_le h o.line
      have hcons : ∀ w : Window, ((w.inside (o :: os)).map g).sum =
          (if w.covers o.line then g o else 0) + ((w.inside os).map g).sum := by
        intro w
        unfold Window.inside
        rw [List.filter_cons]
        cases w.covers o.line <;> simp
      simp only [hcons, List.sum_map_add, sum_covers, List.map_cons, List.sum_cons]
      have : (ws.filter fun w => w.covers o.line).length * g o ≤ 1 * g o :=
        Nat.mul_le_mul_right _ hone
      omega

/-! ### The scopes of a text -/

/-- The construct that a line of the given kind scores: only lines of bodies score any. -/
def scoredOn? (k : LineKind) (raw : List Char) : Option Construct :=
  match k with
  | .body _ => construct? (Text.trim raw)
  | _ => none

/-- The constructs that lines of the given kinds score, each with the number of its line; the first
line has the number `n`. -/
def scoredLines (n : Nat) (lines : List (List Char)) (kinds : List LineKind) :
    List (Nat × Construct) :=
  ((lines.zip kinds).zipIdx n).filterMap fun e => (scoredOn? e.1.2 e.1.1).map (e.2, ·)

theorem map_found? (excluded : List String) (s : Scanner) (n : Nat) (raw : List Char) :
    (found? excluded s n raw).map (fun o => (o.line, o.kind)) =
      (scoredOn? (lineKind excluded s.openMethod.isSome raw) raw).map (n, ·) := by
  rw [← kind_act? excluded s n raw, found?]
  simp only [act?]
  split
  · rfl
  · split
    · rfl
    · split
      · rfl
      · simp only [Option.bind_some, Act.occurrence?, Option.map_map]
        rfl

/-- A scan scores what the lines of bodies hold. -/
theorem map_occurrences (excluded : List String) (n : Nat) (ls : List (List Char)) (s : Scanner) :
    (occurrences excluded n ls s).map (fun o => (o.line, o.kind)) =
      scoredLines n ls (lineKinds excluded s.openMethod.isSome ls) := by
  induction ls generalizing n s with
  | nil => rfl
  | cons l ls ih =>
      have hrest := ih (n + 1) (s.readLine excluded n l)
      rw [isSome_openMethod_readLine] at hrest
      have hfound := map_found? excluded s n l
      unfold found? at hfound
      rw [occurrences_cons, List.map_append, hrest, ← Option.toList_map, hfound]
      rw [lineKinds, scoredLines, scoredLines, List.zip_cons_cons, List.zipIdx_cons,
        List.filterMap_cons]
      cases scoredOn? (lineKind excluded s.openMethod.isSome l) l <;> rfl

/-- The scopes of a text are stored under their names, of two of one name the later one. -/
theorem closed_breakdown (language : Language) (extra : List String) (source : String)
    (r : Register) :
    let excluded := language.excludedIdentifiers ++ extra
    let lines := Text.splitLines source.toList
    r.closed (breakdown language extra source) =
      .ofList ((windows r 1 (lineKinds excluded false lines)).map fun w =>
        (w.name, w.score (occurrences excluded 1 lines .initial))) := by
  intro excluded lines
  have hpending : r.pending .initial = none := by cases r <;> rfl
  have hclosed : r.closed Scanner.initial.result = ∅ := by cases r <;> rfl
  have hstore := closed_readLines excluded r 1 lines .initial
  rw [hpending, hclosed] at hstore
  refine hstore.trans ?_
  unfold scopesClosed store SortedMap.ofList
  rw [Option.map_none, Option.toList_none, List.nil_append, List.foldl_map, List.foldl_map]
  rfl

/-- **Scopes are scored over their windows.**  A line of a text is skipped, or the head of a class,
or, unless it is in the window of a method, the head of a method, or a line of a body, and just the
lines of bodies score constructs.  The window of a scope goes from its head to the first line after
it that ends it.  A breakdown has the scopes that are opened, each with the score of its window, and
of two of one name that of the later.  No construct is in two windows of methods, or in two of
classes, so the scopes together hold no more than the text. -/
theorem scopes_windowed (language : Language) (extra : List String) (source : String) :
    let excluded := language.excludedIdentifiers ++ extra
    let lines := Text.splitLines source.toList
    let kinds := lineKinds excluded false lines
    let os := occurrences excluded 1 lines .initial
    let b := breakdown language extra source
    (∀ i raw, lines[i]? = some raw → kinds[i]? = some
      (lineKind excluded ((windows .methods 1 kinds).any fun w => w.covers (1 + i)) raw)) ∧
    os.map (fun o => (o.line, o.kind)) = scoredLines 1 lines kinds ∧
    b.dc = (os.map Occurrence.dc).sum ∧ b.cc = 1 + os.length ∧
    ∀ r : Register,
      (∀ name, (r.closed b).get? name =
        ((windows r 1 kinds).filter fun w => w.name = name).getLast?.map fun w => w.score os) ∧
      (∀ o ∈ os, ((windows r 1 kinds).filter fun w => w.covers o.line).length ≤ 1) ∧
      ((r.closed b).values.map (·.dc)).sum ≤ b.dc ∧
      ((r.closed b).values.map (·.cc - 1)).sum ≤ b.cc - 1 := by
  intro excluded lines kinds os b
  have hdc : b.dc = 0 + (os.map Occurrence.dc).sum :=
    total_finish excluded (·.dc) (fun _ _ => rfl) (fun _ _ => rfl) (fun _ _ _ _ => rfl)
      (fun _ _ => rfl) 1 lines .initial
  have hcc : b.cc = 1 + (os.map fun _ => 1).sum :=
    total_finish excluded (·.cc) (fun _ _ => rfl) (fun _ _ => rfl) (fun _ _ _ _ => rfl)
      (fun _ _ => rfl) 1 lines .initial
  have hlength : ∀ ps : List Occurrence, (ps.map fun _ => 1).sum = ps.length := by simp
  rw [hlength] at hcc
  refine ⟨?_, map_occurrences excluded 1 lines .initial, hdc.trans (Nat.zero_add _), hcc, ?_⟩
  · intro i raw h
    have hkind : kinds[i]? = some (lineKind excluded (inMethodAt false 1 kinds i) raw) :=
      getElem?_lineKinds h
    rwa [inMethodAt, Bool.false_and, Bool.false_or] at hkind
  · intro r
    have hclosed : r.closed b = .ofList ((windows r 1 kinds).map fun w => (w.name, w.score os)) :=
      closed_breakdown language extra source r
    have hpairs := pairwise_windows r excluded false 1 lines
    refine ⟨?_, fun o _ => length_covers_le hpairs o.line, ?_, ?_⟩
    · intro name
      rw [hclosed, SortedMap.get?_ofList, List.filter_map, List.getLast?_map, Option.map_map]
      rfl
    · rw [hclosed, hdc, Nat.zero_add]
      refine Nat.le_trans (SortedMap.sum_values_ofList_le _ _) ?_
      rw [List.map_map]
      exact sum_inside_le hpairs Occurrence.dc os
    · rw [hclosed, hcc, Nat.add_sub_cancel_left]
      refine Nat.le_trans (SortedMap.sum_values_ofList_le _ _) ?_
      have hsum := sum_inside_le hpairs (fun _ => 1) os
      simp only [hlength] at hsum
      simpa [Function.comp_def, Window.score] using hsum

/-- The first brace after its head closes a method, be it that of a block inside it. -/
example :
    let b := breakdown .java [] "void f() \x7b\nif (x) \x7b\n\x7d\nif (y) \x7b\n\x7d\n\x7d"
    b.methods.entries = [("f", ⟨4, 2⟩)] ∧ b.dc = 8 ∧ b.cc = 3 := by decide +kernel

end DecisionScore.Brace
