import DecisionScore.Proofs.Scan
import DecisionScore.Proofs.Text

/-! # Spellings of a path

Two spellings of a path have the same components and differ in pieces that lead nowhere: empty ones
and dots.  Such an `isIdle` piece stays in a directory, but it cannot be taken from a file.  Two
spellings therefore name the same entry, through whatever links, unless one of them goes on behind a
file (`find_eq`).

Discovery keeps the spelling that is found first.  What a scan reads does not depend on the order of
the given paths as long as no file that is found is also given with a slash or a dot behind it
(`scan_of_same`), and otherwise it does. -/

namespace DecisionScore

/-! ### Pieces that lead somewhere -/

namespace Component

/-- Whether a piece of a path leads nowhere. -/
def isIdle (piece : List UInt8) : Bool := piece = [] || piece = [dot]

/-- The piece a component is written as, unless it can only stand at the front. -/
def piece? : Component → Option (List UInt8)
  | root | here => none
  | parent => some [dot, dot]
  | name s => some s.bytes

theorem ofPiece?_cases (piece : List UInt8) :
    (isIdle piece = true ∧ ofPiece? piece = none) ∨
    (isIdle piece = false ∧ ∃ c, ofPiece? piece = some c ∧ c ≠ root ∧ c.piece? = some piece) := by
  unfold isIdle ofPiece?
  by_cases hidle : piece = [] ∨ piece = [dot]
  · exact .inl ⟨by simpa using hidle, if_pos hidle⟩
  · refine .inr ⟨by simpa using hidle, ?_⟩
    rw [if_neg hidle]
    by_cases hparent : piece = [dot, dot]
    · rw [if_pos hparent]
      exact ⟨parent, rfl, by simp, by rw [hparent]; rfl⟩
    · rw [if_neg hparent]
      exact ⟨name ⟨piece⟩, rfl, by simp, rfl⟩

theorem root_ne_ofPiece? (piece : List UInt8) : ofPiece? piece ≠ some root := by
  rcases ofPiece?_cases piece with ⟨-, h⟩ | ⟨-, c, h, hc, -⟩
  · simp [h]
  · simpa [h] using hc

end Component

namespace Path

/-- The pieces that lead somewhere. -/
def turnsOf (pieces : List (List UInt8)) : List (List UInt8) :=
  pieces.filter fun piece => !Component.isIdle piece

/-- The pieces of a path that lead somewhere. -/
def turns (p : Path) : List (List UInt8) := turnsOf p.pieces

/-- The components of a path tell which pieces lead somewhere. -/
theorem filterMap_piece? (p : Path) : p.components.filterMap Component.piece? = p.turns := by
  have hrest : ∀ l : List (List UInt8),
      (l.filterMap Component.ofPiece?).filterMap Component.piece? = turnsOf l := by
    intro l
    unfold turnsOf
    induction l with
    | nil => rfl
    | cons piece l ih =>
        rcases Component.ofPiece?_cases piece with ⟨hidle, hnone⟩ | ⟨hidle, c, hsome, -, hpiece⟩
        · rw [List.filterMap_cons_none hnone, ih, List.filter_cons_of_neg (by simp [hidle])]
        · rw [List.filterMap_cons_some hsome, List.filterMap_cons_some hpiece, ih,
            List.filter_cons_of_pos (by simp [hidle])]
  unfold components turns
  split
  · exact hrest _
  · split
    · exact hrest _
    · exact hrest _

theorem root_mem_components (p : Path) : .root ∈ p.components ↔ p.isAbsolute = true := by
  have hrest : .root ∉ p.pieces.filterMap Component.ofPiece? := by
    intro h
    obtain ⟨piece, -, hpiece⟩ := List.mem_filterMap.mp h
    exact Component.root_ne_ofPiece? piece hpiece
  unfold components
  by_cases habsolute : p.isAbsolute = true
  · simp [habsolute]
  · rw [if_neg habsolute]
    refine iff_of_false ?_ habsolute
    split
    · exact List.not_mem_cons_of_ne_of_not_mem (by simp) hrest
    · exact hrest

theorem components_eq_nil (p : Path) : p.components = [] ↔ p.raw.bytes = [] := by
  constructor
  · intro h
    have habsolute : p.isAbsolute = false := by
      have hroot := (root_mem_components p).not
      rw [h, Bool.not_eq_true] at hroot
      exact hroot.mp List.not_mem_nil
    cases hbytes : p.raw.bytes with
    | nil => rfl
    | cons c cs =>
        -- the first piece is not empty, so that it is a component
        have hc : c ≠ slash := by
          rintro rfl
          simp [isAbsolute, hbytes] at habsolute
        obtain ⟨l, ls, -, hpieces⟩ := Text.exists_pieces_cons hc cs
        have hpieces : p.pieces = (c :: l) :: ls := by rw [pieces, hbytes, hpieces]
        unfold components at h
        rw [habsolute, hpieces] at h
        by_cases hdot : c :: l = [dot]
        · simp [hdot] at h
        · rcases Component.ofPiece?_cases (c :: l) with ⟨hidle, -⟩ | ⟨-, _, hsome, -⟩
          · simp [Component.isIdle, hdot] at hidle
          · simp [hdot, hsome] at h
  · intro h
    obtain ⟨⟨bytes⟩⟩ := p
    obtain rfl : bytes = [] := h
    rfl

section
variable {p q : Path} (h : p.same q = true)
include h

theorem turns_eq_of_same : p.turns = q.turns := by
  rw [← filterMap_piece?, ← filterMap_piece?, same_iff.mp h]

theorem isAbsolute_eq_of_same : p.isAbsolute = q.isAbsolute := by
  rw [Bool.eq_iff_iff, ← root_mem_components, ← root_mem_components, same_iff.mp h]

theorem bytes_eq_nil_of_same : p.raw.bytes = [] ↔ q.raw.bytes = [] := by
  rw [← components_eq_nil, ← components_eq_nil, same_iff.mp h]

theorem extension_eq_of_same : p.extension = q.extension := by
  unfold extension fileName?
  rw [same_iff.mp h]

end

end Path

/-! ### Following a path -/

/-- Whether the last of some pieces leads nowhere. -/
def endsIdle (pieces : List (List UInt8)) : Bool := pieces.getLast?.any Component.isIdle

section
variable {piece : List UInt8} {rest : List (List UInt8)}

theorem endsIdle_append (pieces : List (List UInt8)) (h : rest ≠ []) :
    endsIdle (pieces ++ rest) = endsIdle rest := by
  rw [endsIdle, List.getLast?_append_of_ne_nil _ h, endsIdle]

theorem endsIdle_cons (h : rest ≠ []) : endsIdle (piece :: rest) = endsIdle rest :=
  endsIdle_append [piece] h

theorem endsIdle_cons_turn (h : Component.isIdle piece = false) :
    endsIdle (piece :: rest) = endsIdle rest := by
  cases rest with
  | nil => exact h
  | cons next rest => exact endsIdle_cons (List.cons_ne_nil next rest)

/-- Pieces that are all idle end in an idle one. -/
theorem endsIdle_of_turnsOf_eq_nil (h : Path.turnsOf rest = []) (hne : rest ≠ []) :
    endsIdle rest = true := by
  have hall : ∀ piece ∈ rest, Component.isIdle piece = true := by
    simpa [Path.turnsOf] using h
  rw [endsIdle, List.getLast?_eq_some_getLast hne]
  exact hall _ (List.getLast_mem hne)

/-- Pieces of which the last one leads somewhere still end in it without the idle ones. -/
theorem endsIdle_append_turnsOf (pieces : List (List UInt8)) (h : endsIdle rest = false)
    (hne : rest ≠ []) : endsIdle (pieces ++ Path.turnsOf rest) = false := by
  obtain ⟨init, last, rfl⟩ := List.eq_nil_or_concat rest |>.resolve_left hne
  have hlast : Component.isIdle last = false := by simpa [endsIdle] using h
  have hturns : Path.turnsOf (init.concat last) = Path.turnsOf init ++ [last] := by
    simp [Path.turnsOf, hlast]
  rw [hturns, ← List.append_assoc, endsIdle_append _ (List.cons_ne_nil last [])]
  exact hlast

end

/-- What is found where something has to stand in it. -/
def behind : Except ReadFault Entry → Except ReadFault Entry
  | .ok e => if e.isDirectory then .ok e else .error .notADirectory
  | .error fault => .error fault

/-- What is found at the end of pieces of which the last one may lead nowhere. -/
def atEnd (pieces : List (List UInt8)) (found : Except ReadFault Entry) : Except ReadFault Entry :=
  if endsIdle pieces then behind found else found

theorem behind_behind (found : Except ReadFault Entry) : behind (behind found) = behind found := by
  cases found with
  | error fault => rfl
  | ok e => cases h : e.isDirectory <;> simp [behind, h]

theorem atEnd_error (pieces : List (List UInt8)) (fault : ReadFault) :
    atEnd pieces (.error fault) = .error fault := by
  unfold atEnd
  split <;> rfl

/-- Pieces can be taken from the end, if the idle ones before it do not count. -/
theorem atEnd_append (pieces rest : List (List UInt8)) (found : Except ReadFault Entry) :
    atEnd (pieces ++ rest) found = atEnd rest (atEnd (pieces ++ Path.turnsOf rest) found) := by
  by_cases hne : rest = []
  · rw [hne]
    rfl
  · unfold atEnd
    rw [endsIdle_append pieces hne]
    cases hidle : endsIdle rest with
    | true =>
        simp only [if_true]
        split
        · exact (behind_behind found).symm
        · rfl
    | false =>
        rw [endsIdle_append_turnsOf pieces hidle hne]
        rfl

namespace FileTree

/-- Where the pieces behind a link lead. -/
def leadOn (root : Entry) : Nat → Path → List Entry → List (List UInt8) → Except ReadFault Entry
  | 0, _, _, _ => .error .tooManyLinks
  | links + 1, target, above, rest =>
    lead root links (target.pieces ++ rest) (if target.isAbsolute then [root] else above)

section
variable (root : Entry) (links : Nat)

theorem lead_nil (e : Entry) (above : List Entry) : lead root links [] (e :: above) = .ok e := by
  cases links <;> rfl

theorem lead_cons (piece : List UInt8) (rest : List (List UInt8)) (place : List Entry) :
    lead root links (piece :: rest) place =
      match step place piece with
      | .error fault => .error fault
      | .ok (.link target :: above) => leadOn root links target above rest
      | .ok next => lead root links rest next := by
  unfold lead
  cases links with
  | zero =>
      rw [follow, trace]
      rcases step place piece with fault | _ | ⟨e, above⟩
      · rfl
      · rfl
      · cases e <;> rfl
  | succ links =>
      rw [follow, trace]
      rcases step place piece with fault | _ | ⟨e, above⟩
      · rfl
      · rfl
      · cases e <;> rfl

theorem lead_of_step_error {place : List Entry} {piece : List UInt8} {fault : ReadFault}
    (h : step place piece = .error fault) (rest : List (List UInt8)) :
    lead root links (piece :: rest) place = .error fault := by
  rw [lead_cons, h]

theorem lead_of_nowhere (pieces : List (List UInt8)) :
    lead root links pieces [] = .error .notFound := by
  cases pieces with
  | nil => cases links <;> rfl
  | cons piece rest => exact lead_of_step_error root links rfl rest

theorem step_of_not_isDirectory {e : Entry} (h : e.isDirectory = false) (above : List Entry)
    (piece : List UInt8) : step (e :: above) piece = .error .notADirectory := by
  cases e with
  | directory => cases h
  | _ => rfl

theorem step_idle (entries : List (RawText × Entry)) (listable : Bool) (above : List Entry)
    {piece : List UInt8} (h : Component.isIdle piece = true) :
    step (.directory entries listable :: above) piece =
      .ok (.directory entries listable :: above) := by
  have hidle : piece = [] ∨ piece = [dot] := by simpa [Component.isIdle] using h
  exact if_pos hidle

/-- An idle piece can be left out, unless it stands behind what is no directory. -/
theorem lead_cons_idle {piece : List UInt8} (hidle : Component.isIdle piece = true)
    {rest : List (List UInt8)} (place : List Entry)
    (h : lead root links rest place =
      atEnd rest (lead root links (Path.turnsOf rest) place)) :
    lead root links (piece :: rest) place =
      atEnd (piece :: rest) (lead root links (Path.turnsOf rest) place) := by
  match place with
  | [] => rw [lead_of_nowhere, lead_of_nowhere, atEnd_error]
  | e :: above =>
      cases hdir : e.isDirectory with
      | true =>
          match e, hdir with
          | .directory entries listable, _ =>
              rw [lead_cons, step_idle entries listable above hidle]
              show lead root links rest _ = _
              by_cases hne : rest = []
              · rw [hne, show Path.turnsOf [] = [] from rfl, lead_nil, atEnd]
                split <;> rfl
              · rw [h, atEnd, atEnd, endsIdle_cons hne]
      | false =>
          have hstep := step_of_not_isDirectory hdir above
          rw [lead_of_step_error root links (hstep piece)]
          cases hturns : Path.turnsOf rest with
          | cons next turns => rw [lead_of_step_error root links (hstep next), atEnd_error]
          | nil =>
              -- nothing leads on from here, so that the last piece is idle
              have hnil : Path.turnsOf (piece :: rest) = [] := by
                rw [← hturns]
                exact List.filter_cons_of_neg (by simp [hidle])
              have hend := endsIdle_of_turnsOf_eq_nil hnil (List.cons_ne_nil piece rest)
              simp [lead_nil, atEnd, hend, behind, hdir]

/-- What holds behind links holds of all pieces. -/
theorem lead_eq_of_leadOn
    (hlink : ∀ target above rest, leadOn root links target above rest =
      atEnd rest (leadOn root links target above (Path.turnsOf rest)))
    (pieces : List (List UInt8)) (place : List Entry) :
    lead root links pieces place = atEnd pieces (lead root links (Path.turnsOf pieces) place) := by
  induction pieces generalizing place with
  | nil => rfl
  | cons piece rest ih =>
      cases hidle : Component.isIdle piece with
      | true =>
          have hturns : Path.turnsOf (piece :: rest) = Path.turnsOf rest :=
            List.filter_cons_of_neg (by simp [hidle])
          rw [hturns]
          exact lead_cons_idle root links hidle place (ih place)
      | false =>
          have hturns : Path.turnsOf (piece :: rest) = piece :: Path.turnsOf rest :=
            List.filter_cons_of_pos (by simp [hidle])
          rw [hturns, lead_cons, lead_cons, atEnd, endsIdle_cons_turn hidle, ← atEnd]
          split
          · rw [atEnd_error]
          · exact hlink _ _ _
          · exact ih _

/-- **Idle pieces** do not count, through whatever links, unless they stand behind what is no
directory. -/
theorem lead_eq (pieces : List (List UInt8)) (place : List Entry) :
    lead root links pieces place = atEnd pieces (lead root links (Path.turnsOf pieces) place) := by
  induction links generalizing pieces place with
  | zero => exact lead_eq_of_leadOn root 0 (fun _ _ rest => (atEnd_error rest _).symm) pieces place
  | succ links ih =>
      refine lead_eq_of_leadOn root (links + 1) (fun target above rest => ?_) pieces place
      have hturns : Path.turnsOf (target.pieces ++ Path.turnsOf rest) =
          Path.turnsOf (target.pieces ++ rest) := by
        simp [Path.turnsOf, List.filter_append]
      show lead root links (target.pieces ++ rest) _ =
        atEnd rest (lead root links (target.pieces ++ Path.turnsOf rest) _)
      rw [ih, ih (target.pieces ++ Path.turnsOf rest), hturns]
      exact atEnd_append _ _ _

/-- What every piece keeps true of a place, and the directories around it keep too, a whole path
keeps true. -/
theorem follow_keeps {P : List Entry → Prop} (hroot : P [root])
    (hstep : ∀ place piece next, P place → step place piece = .ok next → P next)
    (habove : ∀ e above, P (e :: above) → P above)
    {pieces : List (List UInt8)} {place last : List Entry} (hplace : P place)
    (h : follow root links pieces place = .ok last) : P last := by
  have htrace : ∀ onLink : Path → List Entry → List (List UInt8) → Except ReadFault (List Entry),
      (∀ target above rest, P above → onLink target above rest = .ok last → P last) →
      ∀ pieces place, P place → trace onLink pieces place = .ok last → P last := by
    intro onLink hlink pieces
    induction pieces with
    | nil =>
        rintro place hplace ⟨⟩
        exact hplace
    | cons piece rest ih =>
        intro place hplace h
        rw [trace] at h
        split at h
        · cases h
        · next hnext => exact hlink _ _ _ (habove _ _ (hstep _ _ _ hplace hnext)) h
        · next hnext => exact ih _ (hstep _ _ _ hplace hnext) h
  induction links generalizing pieces place with
  | zero => exact htrace _ (fun _ _ _ _ h => by cases h) pieces place hplace h
  | succ links ih =>
      refine htrace _ (fun target above rest hplace h => ih ?_ h) pieces place hplace h
      split
      · exact hroot
      · exact hplace

end

section
variable {tree : FileTree} {p q : Path}

theorem find_of_bytes_eq_nil (h : p.raw.bytes = []) : tree.find p = .error .notFound := by
  unfold find
  rw [if_pos (by simp [h])]

theorem start_eq_of_same (h : p.same q = true) : tree.start p = tree.start q := by
  unfold start
  rw [Path.isAbsolute_eq_of_same h]

/-- **Where a path leads**: where its turns lead, unless it goes on behind what is no directory. -/
theorem find_eq (h : p.raw.bytes ≠ []) : tree.find p = tree.start p >>= fun place =>
    atEnd p.pieces (lead tree.root linkLimit p.turns place) := by
  unfold find
  rw [if_neg (by simpa using h)]
  exact congrArg _ (funext fun place => lead_eq tree.root linkLimit p.pieces place)

/-- A path names something that is no directory. -/
def IsFile (tree : FileTree) (p : Path) : Prop :=
  ∃ e, tree.find p = .ok e ∧ e.isDirectory = false

/-- Two spellings of a path lead to one thing, up to their ends. -/
theorem find_of_same (h : p.same q = true) : ∃ found,
    tree.find p = atEnd p.pieces found ∧ tree.find q = atEnd q.pieces found := by
  by_cases hbytes : p.raw.bytes = []
  · refine ⟨.error .notFound, ?_, ?_⟩
    · rw [find_of_bytes_eq_nil hbytes, atEnd_error]
    · rw [find_of_bytes_eq_nil ((Path.bytes_eq_nil_of_same h).mp hbytes), atEnd_error]
  · have hbytes' : q.raw.bytes ≠ [] := (Path.bytes_eq_nil_of_same h).not.mp hbytes
    rw [find_eq hbytes, find_eq hbytes', ← start_eq_of_same h, ← Path.turns_eq_of_same h]
    cases tree.start p with
    | error fault => exact ⟨.error fault, (atEnd_error _ _).symm, (atEnd_error _ _).symm⟩
    | ok place => exact ⟨_, rfl, rfl⟩

/-- An end changes nothing but the entry that is no directory. -/
theorem atEnd_cases (pieces : List (List UInt8)) (found : Except ReadFault Entry) :
    atEnd pieces found = found ∨
    ((∃ e, found = .ok e ∧ e.isDirectory = false) ∧ endsIdle pieces = true ∧
      atEnd pieces found = .error .notADirectory) := by
  unfold atEnd
  cases hidle : endsIdle pieces with
  | false => exact .inl rfl
  | true =>
      cases found with
      | error fault => exact .inl rfl
      | ok e =>
          cases hdir : e.isDirectory with
          | true => exact .inl (if_pos hdir)
          | false =>
              refine .inr ⟨⟨e, rfl, hdir⟩, rfl, ?_⟩
              rw [if_pos rfl, behind, hdir, if_neg Bool.false_ne_true]

/-- Two spellings of a path name the same entry, if they agree on whether it is a file. -/
theorem find_congr (h : p.same q = true) (hfile : tree.IsFile p ↔ tree.IsFile q) :
    tree.find p = tree.find q := by
  obtain ⟨found, hp, hq⟩ : ∃ found, tree.find p = atEnd p.pieces found ∧
      tree.find q = atEnd q.pieces found := find_of_same h
  rcases atEnd_cases p.pieces found with hp' | ⟨⟨e, rfl, hdir⟩, -, hp'⟩
  · rcases atEnd_cases q.pieces found with hq' | ⟨⟨e, rfl, hdir⟩, -, hq'⟩
    · rw [hp, hq, hp', hq']
    · obtain ⟨e', he', -⟩ := hfile.mp ⟨e, hp.trans hp', hdir⟩
      cases (hq.trans hq').symm.trans he'
  · rcases atEnd_cases q.pieces (.ok e) with hq' | ⟨-, -, hq'⟩
    · obtain ⟨e', he', -⟩ := hfile.mpr ⟨e, hq.trans hq', hdir⟩
      cases (hp.trans hp').symm.trans he'
    · rw [hp, hq, hp', hq']

/-- A spelling without a slash or a dot at its end names a file if another one does. -/
theorem IsFile.of_same (hq : tree.IsFile q) (h : p.same q = true)
    (hend : endsIdle p.pieces = false) : tree.IsFile p := by
  obtain ⟨e, hfind, hdir⟩ := hq
  obtain ⟨found, hp, hq⟩ : ∃ found, tree.find p = atEnd p.pieces found ∧
      tree.find q = atEnd q.pieces found := find_of_same h
  rcases atEnd_cases q.pieces found with hq' | ⟨-, -, hq'⟩
  · have hfound : found = .ok e := hq'.symm.trans (hq.symm.trans hfind)
    refine ⟨e, ?_, hdir⟩
    rw [hp, hfound, atEnd, hend, if_neg Bool.false_ne_true]
  · cases (hq.trans hq').symm.trans hfind

end

end FileTree

/-! ### Names -/

/-- What can be the name of a file or a directory. -/
def IsName (name : RawText) : Prop :=
  name.bytes ≠ [] ∧ name.bytes ≠ [dot] ∧ name.bytes ≠ [dot, dot] ∧ slash ∉ name.bytes

instance (name : RawText) : Decidable (IsName name) := inferInstanceAs (Decidable (_ ∧ _))

/-- Every entry at and below an entry has a name that can be one. -/
inductive Entry.WellNamed : Entry → Prop where
  | leaf {e : Entry} (single : e.isDirectory = false) : WellNamed e
  | directory {entries : List (RawText × Entry)} {listable : Bool}
      (name : ∀ e ∈ entries, IsName e.1) (below : ∀ e ∈ entries, WellNamed e.2) :
      WellNamed (.directory entries listable)

namespace Entry.WellNamed

theorem get? {entries : List (RawText × Entry)} {listable : Bool} {name : RawText} {e : Entry}
    (h : WellNamed (.directory entries listable)) (he : Entry.get? entries name = some e) :
    e.WellNamed := by
  obtain ⟨found, hfound, rfl⟩ := Option.map_eq_some_iff.mp he
  cases h with
  | leaf single => cases single
  | directory name below => exact below found (List.mem_of_find?_eq_some hfound)

theorem isName {e f : Entry} {names : List RawText} (h : e.WellNamed) (hbelow : e.Below names f) :
    ∀ name ∈ names, IsName name := by
  induction hbelow with
  | self e => simp
  | down hmem hbelow ih =>
      cases h with
      | leaf single => cases single
      | directory name below => exact List.forall_mem_cons.mpr ⟨name _ hmem, ih (below _ hmem)⟩

theorem step {place next : List Entry} {piece : List UInt8} (h : ∀ e ∈ place, e.WellNamed)
    (hstep : FileTree.step place piece = .ok next) : ∀ e ∈ next, e.WellNamed := by
  unfold FileTree.step at hstep
  split at hstep
  · split at hstep
    · cases hstep
      exact h
    · split at hstep
      · cases hstep
        split
        · exact List.forall_mem_singleton.mpr (h _ List.mem_cons_self)
        · exact fun e he => h e (List.mem_cons_of_mem _ he)
      · split at hstep
        · next e he =>
            cases hstep
            exact List.forall_mem_cons.mpr ⟨(h _ List.mem_cons_self).get? he, h⟩
        · cases hstep
  · cases hstep
  · cases hstep

theorem follow {root : Entry} (h : root.WellNamed) {links : Nat} {pieces : List (List UInt8)}
    {place last : List Entry} (hplace : ∀ e ∈ place, e.WellNamed)
    (hlast : FileTree.follow root links pieces place = .ok last) : ∀ e ∈ last, e.WellNamed :=
  FileTree.follow_keeps (P := fun place => ∀ e ∈ place, e.WellNamed) root links
    (List.forall_mem_singleton.mpr h) (fun _ _ _ => step)
    (fun _ _ hplace e he => hplace e (List.mem_cons_of_mem _ he)) hplace hlast

theorem find {tree : FileTree} (h : tree.root.WellNamed) {p : Path} {e : Entry}
    (hfind : tree.find p = .ok e) : e.WellNamed := by
  have hroot : ∀ e ∈ [tree.root], e.WellNamed := List.forall_mem_singleton.mpr h
  have hstart : ∀ place, tree.start p = .ok place → ∀ e ∈ place, e.WellNamed := by
    intro place hplace
    unfold FileTree.start at hplace
    split at hplace
    · cases hplace
      exact hroot
    · exact follow h hroot hplace
  unfold FileTree.find at hfind
  split at hfind
  · cases hfind
  · cases hplace : tree.start p with
    | error fault =>
        rw [hplace] at hfind
        cases hfind
    | ok place =>
        rw [hplace] at hfind
        have hfind : FileTree.lead tree.root FileTree.linkLimit p.pieces place = .ok e := hfind
        unfold FileTree.lead at hfind
        split at hfind
        · next hlast =>
            cases hfind
            exact follow h (hstart place hplace) hlast _ List.mem_cons_self
        · cases hfind
        · cases hfind

end Entry.WellNamed

/-! ### Files below a directory -/

/-- What stands behind the last slash is the end of a path. -/
theorem Path.endsIdle_join {name : RawText} (h : IsName name) (dir : Path) :
    endsIdle (dir.join name).pieces = false := by
  obtain ⟨hempty, hdot, -, hslash⟩ := h
  have hbytes : ∃ before, (dir.join name).raw.bytes = before ++ slash :: name.bytes := by
    unfold join
    split
    · next hlast =>
        obtain ⟨before, hbefore⟩ := List.getLast?_eq_some_iff.mp hlast
        exact ⟨before, by simp [hbefore]⟩
    · exact ⟨dir.raw.bytes, rfl⟩
  obtain ⟨before, hbefore⟩ := hbytes
  rw [pieces, hbefore, Text.pieces_append, Text.pieces_of_not_mem hslash,
    endsIdle_append _ (List.cons_ne_nil _ _)]
  simpa [endsIdle, Component.isIdle] using ⟨hempty, hdot⟩

theorem FileTree.HasFileBelow.endsIdle_eq_false {tree : FileTree} (h : tree.root.WellNamed)
    {dir f : Path} (hbelow : tree.HasFileBelow dir f) : endsIdle f.pieces = false := by
  obtain ⟨e, hfind, hdir, names, g, hbelow, hfile, rfl⟩ := hbelow
  have hnames := (h.find hfind).isName hbelow
  have hne : names ≠ [] := by
    rintro rfl
    cases hbelow
    cases e with
    | directory entries listable => cases listable <;> cases hfile
    | _ => cases hdir
  -- the last name on the way down is the end of the path
  obtain ⟨init, last, rfl⟩ := List.eq_nil_or_concat names |>.resolve_left hne
  rw [List.concat_eq_append, List.foldl_append]
  exact Path.endsIdle_join (hnames last (by simp)) _

/-! ### Scans of two lists -/

/-- Two analyses are the same up to the spelling of the path. -/
structure FileAnalysis.Agrees (f g : FileAnalysis) : Prop where
  path : f.path.same g.path = true
  language : f.language = g.language
  source : f.source = g.source
  breakdown : f.breakdown = g.breakdown

section
variable (config : Config) {tree : FileTree} (forced : Option Language) {p q : Path}

/-- **One file in two spellings** that name the same entry. -/
theorem analyzeFile_of_same (h : p.same q = true) (hfind : tree.find p = tree.find q) :
    (∃ f g, analyzeFile config tree forced p = .ok f ∧ analyzeFile config tree forced q = .ok g ∧
      f.Agrees g) ∨
    ∃ e e', analyzeFile config tree forced p = .error e ∧
      analyzeFile config tree forced q = .error e' := by
  have hlanguage : languageFor? forced p = languageFor? forced q := by
    unfold languageFor?
    rw [Path.extension_eq_of_same h]
  have hok : (analyzeFile config tree forced p).isOk = true ↔
      (analyzeFile config tree forced q).isOk = true := by
    simp only [isOk_analyzeFile, FileTree.HasText, FileTree.contentAt, hlanguage, hfind]
  have hfails : ∀ e, analyzeFile config tree forced p = .error e →
      ∃ e', analyzeFile config tree forced q = .error e' := by
    intro e hp
    rw [hp] at hok
    cases hq : analyzeFile config tree forced q with
    | error e' => exact ⟨e', rfl⟩
    | ok g =>
        rw [hq] at hok
        exact absurd (hok.mpr rfl) Bool.false_ne_true
  rcases analyzeFile_cases config tree forced p with
    ⟨-, what, hp⟩ | ⟨-, -, fault, hp⟩ | ⟨language, source, b, hp, hsource, hb, hresult⟩
  · obtain ⟨e', hq⟩ := hfails _ hp
    exact .inr ⟨_, e', hp, hq⟩
  · obtain ⟨e', hq⟩ := hfails _ hp
    exact .inr ⟨_, e', hp, hq⟩
  · have hsource' : tree.HasText q source := by
      unfold FileTree.HasText FileTree.contentAt
      rw [← hfind]
      exact hsource
    have hq := analyzeFile_of_hasText config tree forced (hlanguage.symm.trans hp) hsource' hb
    exact .inl ⟨_, _, hresult, hq, h, rfl, rfl, rfl⟩

/-- **Many files in two spellings** that name the same entries. -/
theorem scan_of_same {paths others : List Path}
    (h : List.Forall₂ (fun p q => p.same q = true ∧ tree.find p = tree.find q) paths others) :
    List.Forall₂ FileAnalysis.Agrees (scan config tree paths forced).files
      (scan config tree others forced).files ∧
    List.Forall₂ (fun f g => f.path.same g.path = true) (scan config tree paths forced).failures
      (scan config tree others forced).failures := by
  induction h with
  | nil => exact ⟨.nil, .nil⟩
  | cons hpq hrest ih =>
      rcases analyzeFile_of_same config forced hpq.1 hpq.2 with
        ⟨f, g, hp, hq, hagrees⟩ | ⟨e, e', hp, hq⟩
      · rw [scan_cons_of_ok hp, scan_cons_of_ok hq]
        exact ⟨.cons hagrees ih.1, ih.2⟩
      · rw [scan_cons_of_error hp, scan_cons_of_error hq]
        exact ⟨ih.1, .cons hpq.1 ih.2⟩

end

/-! ### The order of the given paths -/

/-- **The order of the given paths does not matter**, if no file that is found is also given with a
slash or a dot behind it: every given path that is another spelling of such a file names a file
itself.  Two orders of the same paths then both have a directory that cannot be walked, or they give
scans with the same analyses, failures in the same places, and paths that are the same up to their
spelling. -/
theorem scan_discover_perm (config : Config) {tree : FileTree} (hnames : tree.root.WellNamed)
    (forced : Option Language) {paths others : List Path} (hperm : paths.Perm others)
    (hspelling : ∀ p ∈ paths, ∀ path ∈ paths, ∀ q, StandsFor tree forced path q →
      p.same q = true → tree.IsFile q → tree.IsFile p) :
    (∃ e e', discover tree paths forced = .error e ∧ discover tree others forced = .error e') ∨
    ∃ found found', discover tree paths forced = .ok found ∧
      discover tree others forced = .ok found' ∧
      let report := scan config tree found forced
      let report' := scan config tree found' forced
      List.Forall₂ FileAnalysis.Agrees report.files report'.files ∧
        List.Forall₂ (fun f g => f.path.same g.path = true) report.failures report'.failures := by
  have hwalks : (∃ found, discover tree paths forced = .ok found) ↔
      ∃ found, discover tree others forced = .ok found := by
    rw [exists_discover, exists_discover]
    simp only [hperm.mem_iff]
  cases hpaths : discover tree paths forced with
  | error e =>
      cases hothers : discover tree others forced with
      | error e' => exact .inl ⟨e, e', rfl, rfl⟩
      | ok found' =>
          obtain ⟨found, hfound⟩ := hwalks.mpr ⟨found', hothers⟩
          cases hpaths.symm.trans hfound
  | ok found =>
      obtain ⟨found', hothers⟩ := hwalks.mp ⟨found, hpaths⟩
      refine .inr ⟨found, found', rfl, hothers, ?_⟩
      obtain ⟨-, files, rfl, hmem⟩ := discover_eq_ok hpaths
      obtain ⟨-, files', rfl, hmem'⟩ := discover_eq_ok hothers
      have hfound : ∀ p, p ∈ files ↔ p ∈ files' := by
        intro p
        simp only [hmem, hmem', hperm.mem_iff]
      have hfile : ∀ p ∈ files, ∀ q ∈ files, p.same q = true →
          tree.IsFile q → tree.IsFile p := by
        intro p hp q hq hsame hfile
        obtain ⟨path, hpath, hstands⟩ := (hmem p).mp hp
        obtain ⟨path', hpath', hstands'⟩ := (hmem q).mp hq
        rcases hstands with ⟨-, rfl⟩ | ⟨hbelow, -⟩
        · exact hspelling p hpath path' hpath' q hstands' hsame hfile
        · exact hfile.of_same hsame (hbelow.endsIdle_eq_false hnames)
      have hsame := Path.sorted_of_mem_iff hfound
      refine scan_of_same config forced ?_
      rw [List.forall₂_iff_zip] at hsame ⊢
      refine ⟨hsame.1, fun {p q} hzip => ?_⟩
      have hpq := hsame.2 hzip
      have hp := Path.mem_of_mem_sorted (List.of_mem_zip hzip).1
      have hq := (hfound q).mpr (Path.mem_of_mem_sorted (List.of_mem_zip hzip).2)
      have hqp : q.same p = true := Path.same_iff.mpr (Path.same_iff.mp hpq).symm
      exact ⟨hpq, FileTree.find_congr hpq ⟨hfile q hq p hp hqp, hfile p hp q hq hpq⟩⟩

/-- A file that is found below its directory and is also given itself, in another spelling. -/
theorem scan_discover_perm_sample :
    let tree : FileTree := ⟨.directory [("d", .directory [("a.h", .file .empty)])], []⟩
    let paths : List Path := [⟨"d"⟩, ⟨"d//a.h"⟩]
    let others : List Path := [⟨"d//a.h"⟩, ⟨"d"⟩]
    tree.root.WellNamed ∧ paths.Perm others ∧
    (∀ p ∈ paths, ∀ path ∈ paths, ∀ q, StandsFor tree none path q →
      p.same q = true → tree.IsFile q → tree.IsFile p) ∧
    discover tree paths none = .ok [⟨"d/a.h"⟩] ∧ discover tree others none = .ok [⟨"d//a.h"⟩] ∧
    let report := scan {} tree [⟨"d/a.h"⟩] none
    let report' := scan {} tree [⟨"d//a.h"⟩] none
    List.Forall₂ FileAnalysis.Agrees report.files report'.files ∧
    List.Forall₂ (fun f g => f.path.same g.path = true) report.failures report'.failures ∧
    report.files.map (·.path) = [⟨"d/a.h"⟩] ∧ report'.files.map (·.path) = [⟨"d//a.h"⟩] := by
  intro tree paths others
  have hnames : tree.root.WellNamed := by
    refine .directory (by decide) (List.forall_mem_singleton.mpr ?_)
    exact .directory (by decide) (List.forall_mem_singleton.mpr (.leaf rfl))
  have hperm : paths.Perm others := by decide
  have hexpand : expandAll tree none paths = .ok [⟨"d/a.h"⟩, ⟨"d//a.h"⟩] := by rfl
  have hexpand' : expandAll tree none others = .ok [⟨"d//a.h"⟩, ⟨"d/a.h"⟩] := by rfl
  have hfirst : discover tree paths none = .ok [⟨"d/a.h"⟩] := by
    rw [discover, hexpand]
    exact congrArg _ (Path.sorted_pair (by decide))
  have hsecond : discover tree others none = .ok [⟨"d//a.h"⟩] := by
    rw [discover, hexpand']
    exact congrArg _ (Path.sorted_pair (by decide))
  have hspelling : ∀ p ∈ paths, ∀ path ∈ paths, ∀ q, StandsFor tree none path q →
      p.same q = true → tree.IsFile q → tree.IsFile p := by
    intro p hp path hpath q hstands hsame hfile
    rcases List.mem_pair.mp hp with rfl | rfl
    · -- the directory is no spelling of the file
      obtain ⟨files, hfiles, hmem⟩ : ∃ files, expandAll tree none paths = .ok files ∧ q ∈ files := by
        rcases expandAll_cases tree none paths with ⟨files, hfiles, -, hmem⟩ | ⟨_, _, _, hdir, -⟩
        · exact ⟨files, hfiles, (hmem q).mpr ⟨path, hpath, hstands⟩⟩
        · cases hexpand.symm.trans hdir
      obtain rfl := Except.ok.inj (hexpand.symm.trans hfiles)
      have hother : ∀ q ∈ [(⟨"d/a.h"⟩ : Path), ⟨"d//a.h"⟩], Path.same ⟨"d"⟩ q = false := by decide
      simp [hother q hmem] at hsame
    · exact ⟨.file .empty, rfl, rfl⟩
  have hreports := scan_discover_perm {} hnames none hperm hspelling
  rw [hfirst, hsecond] at hreports
  obtain ⟨_, _, he, -⟩ | ⟨found, found', hfound, hfound', hfiles, hfailures⟩ := hreports
  · cases he
  · obtain rfl := Except.ok.inj hfound
    obtain rfl := Except.ok.inj hfound'
    refine ⟨hnames, hperm, hspelling, hfirst, hsecond, hfiles, hfailures, ?_, ?_⟩
    · have hok := (isOk_analyzeFile {} tree none ⟨"d/a.h"⟩).mpr ⟨by decide, "", rfl⟩
      rw [(accounts_scan {} tree none _).files]
      simp [hok]
    · have hok := (isOk_analyzeFile {} tree none ⟨"d//a.h"⟩).mpr ⟨by decide, "", rfl⟩
      rw [(accounts_scan {} tree none _).files]
      simp [hok]

/-- A file that is also given with a slash behind it is scored or fails, as the order has it. -/
theorem trailing_slash_counts :
    let tree : FileTree := ⟨.directory [("a.h", .file .empty)], []⟩
    let paths : List Path := [⟨"a.h"⟩, ⟨"a.h/"⟩]
    let others : List Path := [⟨"a.h/"⟩, ⟨"a.h"⟩]
    let report := scan {} tree [⟨"a.h"⟩] none
    let report' := scan {} tree [⟨"a.h/"⟩] none
    tree.root.WellNamed ∧ paths.Perm others ∧
    discover tree paths none = .ok [⟨"a.h"⟩] ∧ discover tree others none = .ok [⟨"a.h/"⟩] ∧
    report.files.map (·.path) = [⟨"a.h"⟩] ∧ report.failures.map (·.path) = [] ∧
    report'.files.map (·.path) = [] ∧ report'.failures.map (·.path) = [⟨"a.h/"⟩] := by
  intro tree paths others report report'
  have hexpand : expandAll tree none paths = .ok paths := by rfl
  have hexpand' : expandAll tree none others = .ok others := by rfl
  have hfirst : discover tree paths none = .ok [⟨"a.h"⟩] := by
    rw [discover, hexpand]
    exact congrArg _ (Path.sorted_pair (by decide))
  have hsecond : discover tree others none = .ok [⟨"a.h/"⟩] := by
    rw [discover, hexpand']
    exact congrArg _ (Path.sorted_pair (by decide))
  have hok := (isOk_analyzeFile {} tree none ⟨"a.h"⟩).mpr ⟨by decide, "", rfl⟩
  have hfault : tree.contentAt ⟨"a.h/"⟩ = .error .notADirectory := by rfl
  have herror : ¬ (analyzeFile {} tree none ⟨"a.h/"⟩).isOk = true := by
    rw [isOk_analyzeFile]
    rintro ⟨-, source, hsource⟩
    cases hfault.symm.trans hsource
  have haccounts := accounts_scan {} tree none
  refine ⟨.directory (by decide) (List.forall_mem_singleton.mpr (.leaf rfl)), by decide, hfirst,
    hsecond, ?_⟩
  rw [(haccounts _).files, (haccounts _).files, (haccounts _).failures, (haccounts _).failures]
  simp [hok, herror]

end DecisionScore
