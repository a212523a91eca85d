import Mathlib.Data.List.Forall2
import DecisionScore.Analysis
import DecisionScore.Proofs.SortedMap

/-! # What paths stand for

Sorting paths puts those with the same components next to each other, so that dropping repeats
leaves one path of each kind, in order (`pairwise_sorted`, `mem_components_sorted`).  A walk lists
the ways down to the files below an entry, and it fails only at a directory that cannot be listed
(`walks_files`).

Together: the files that are discovered are exactly those that are asked for, whichever way the
directories overlap and the paths are spelled, and they are discovered if every directory can be
walked. -/

namespace DecisionScore

/-! ### Paths in order -/

namespace Path

theorem same_iff {p q : Path} : p.same q = true ↔ p.components = q.components := beq_iff_eq

instance : Std.TransCmp order := inferInstanceAs (Std.TransCmp (compareOn components))

theorem le_trans (p q r : Path) (h : p.le q = true) (h' : q.le r = true) : p.le r = true :=
  Std.TransCmp.isLE_trans h h'

theorem le_total (p q : Path) : (p.le q || q.le p) = true := by
  have hswap : q.order p = (p.order q).swap := Std.OrientedCmp.eq_swap
  unfold le
  rw [hswap]
  cases p.order q <;> rfl

theorem order_of_le {p q : Path} (h : p.le q = true) (hne : ¬ p.same q = true) :
    p.order q = .lt := by
  rcases Ordering.isLE_iff_eq_lt_or_eq_eq.mp h with hlt | heq
  · exact hlt
  · exact absurd (same_iff.mpr (Std.LawfulEqCmp.eq_of_compare heq)) hne

theorem dropRepeats_sublist (l : List Path) : (dropRepeats l).Sublist l := by
  induction l using dropRepeats.induct with
  | case1 => rw [dropRepeats]
  | case2 p => rw [dropRepeats]
  | case3 p q rest hsame ih =>
      rw [dropRepeats, if_pos hsame]
      exact ih.trans ((List.sublist_cons_self q rest).cons_cons p)
  | case4 p q rest hne ih =>
      rw [dropRepeats, if_neg hne]
      exact ih.cons_cons p

/-- A path that is dropped is the same as one that stays. -/
theorem mem_components_dropRepeats (l : List Path) (cs : List Component) :
    cs ∈ (dropRepeats l).map components ↔ cs ∈ l.map components := by
  induction l using dropRepeats.induct with
  | case1 => rw [dropRepeats]
  | case2 p => rw [dropRepeats]
  | case3 p q rest hsame ih =>
      rw [dropRepeats, if_pos hsame, ih]
      simp [same_iff.mp hsame]
  | case4 p q rest hne ih =>
      rw [dropRepeats, if_neg hne, List.map_cons, List.map_cons, List.mem_cons, List.mem_cons, ih]

/-- What stays of an ordered list increases strictly. -/
theorem pairwise_dropRepeats {l : List Path} (h : l.Pairwise fun p q => p.le q = true) :
    (dropRepeats l).Pairwise fun p q => p.order q = .lt := by
  induction l using dropRepeats.induct with
  | case1 =>
      rw [dropRepeats]
      exact .nil
  | case2 p =>
      rw [dropRepeats]
      exact List.pairwise_singleton _ p
  | case3 p q rest hsame ih =>
      rw [dropRepeats, if_pos hsame]
      exact ih (h.sublist ((List.sublist_cons_self q rest).cons_cons p))
  | case4 p q rest hne ih =>
      rw [dropRepeats, if_neg hne]
      obtain ⟨hp, hq⟩ := List.pairwise_cons.mp h
      have hpq : p.order q = .lt := order_of_le (hp q List.mem_cons_self) hne
      refine List.pairwise_cons.mpr ⟨fun r hr => ?_, ih hq⟩
      -- `r` is `q` or comes after it, since nothing is kept that was not there
      rcases List.mem_cons.mp ((dropRepeats_sublist _).subset hr) with rfl | hr
      · exact hpq
      · exact Std.TransCmp.lt_of_lt_of_isLE hpq (List.rel_of_pairwise_cons hq hr)

theorem pairwise_sorted (l : List Path) : (sorted l).Pairwise fun p q => p.order q = .lt :=
  pairwise_dropRepeats (List.pairwise_mergeSort le_trans le_total l)

theorem mem_of_mem_sorted {p : Path} {l : List Path} (h : p ∈ sorted l) : p ∈ l :=
  List.mem_mergeSort.mp ((dropRepeats_sublist _).subset h)

theorem mem_components_sorted (l : List Path) (cs : List Component) :
    cs ∈ (sorted l).map components ↔ cs ∈ l.map components := by
  unfold sorted
  rw [mem_components_dropRepeats]
  simp only [List.mem_map, List.mem_mergeSort]

theorem sorted_singleton (p : Path) : sorted [p] = [p] := by
  rw [sorted, List.mergeSort_singleton, dropRepeats]

/-- Of two spellings of a path the first one stays. -/
theorem sorted_pair {p q : Path} (h : p.same q = true) : sorted [p, q] = [p] := by
  have hle : p.le q = true := by
    have heq : p.order q = .eq := Std.LawfulEqOrd.compare_eq_iff_eq.mpr (same_iff.mp h)
    simp [le, heq]
  unfold sorted
  rw [List.mergeSort_of_pairwise (List.pairwise_pair.mpr hle), dropRepeats, if_pos h, dropRepeats]

theorem same_sorted (l : List Path) (p : Path) :
    (∃ q ∈ sorted l, p.same q = true) ↔ ∃ q ∈ l, p.same q = true := by
  have hcomponents := mem_components_sorted l p.components
  simp only [List.mem_map] at hcomponents
  simp only [same_iff, eq_comm (a := p.components)]
  exact hcomponents

/-- The sorted list depends on its members only, up to their spelling. -/
theorem sorted_of_mem_iff {l k : List Path} (h : ∀ p, p ∈ l ↔ p ∈ k) :
    List.Forall₂ (fun p q => p.same q = true) (sorted l) (sorted k) := by
  have hmem : ∀ cs, cs ∈ (sorted l).map components ↔ cs ∈ (sorted k).map components := by
    intro cs
    rw [mem_components_sorted, mem_components_sorted]
    simp only [List.mem_map, h]
  have hordered : ∀ l, ((sorted l).map components).Pairwise fun a b => compare a b = .lt :=
    fun l => List.pairwise_map.mpr (pairwise_sorted l)
  have hequal := eq_of_increasing (hordered l) (hordered k) hmem
  rw [← List.forall₂_eq_eq_eq, List.forall₂_map_left_iff, List.forall₂_map_right_iff] at hequal
  exact hequal.imp fun _ _ => same_iff.mpr

end Path

/-! ### Walks -/

namespace Entry

/-- Names lead from an entry down to another one. -/
inductive Below : Entry → List RawText → Entry → Prop where
  | self (e : Entry) : Below e [] e
  | down {entries : List (RawText × Entry)} {listable : Bool} {name : RawText} {e f : Entry}
      {names : List RawText} (mem : (name, e) ∈ entries) (below : Below e names f) :
      Below (.directory entries listable) (name :: names) f

/-- Whether an entry is a file, which may be one that cannot be read. -/
def isFile : Entry → Bool
  | file _ => true
  | barred => true
  | _ => false

/-- Whether an entry is a directory that cannot be listed. -/
def isUnlistable : Entry → Bool
  | directory _ false => true
  | _ => false

/-- A path goes on from that of an entry down to one of a kind. -/
def Reaches (e : Entry) (path : Path) (kind : Entry → Bool) (f : Path) : Prop :=
  ∃ names g, e.Below names g ∧ kind g = true ∧ f = names.foldl Path.join path

/-- A path goes on from that of a directory through one of its entries. -/
def ReachesIn (entries : List (RawText × Entry)) (dir : Path) (kind : Entry → Bool) (f : Path) :
    Prop :=
  ∃ name e, (name, e) ∈ entries ∧ e.Reaches (dir.join name) kind f

section
variable {kind : Entry → Bool} {path f : Path}

theorem reaches_of_not_isDirectory {e : Entry} (h : e.isDirectory = false) :
    e.Reaches path kind f ↔ kind e = true ∧ f = path := by
  constructor
  · rintro ⟨names, g, hbelow, hkind, rfl⟩
    cases hbelow with
    | self => exact ⟨hkind, rfl⟩
    | down => cases h
  · rintro ⟨hkind, rfl⟩
    exact ⟨[], e, .self e, hkind, rfl⟩

theorem reaches_directory {entries : List (RawText × Entry)} {listable : Bool} :
    (directory entries listable).Reaches path kind f ↔
      (kind (directory entries listable) = true ∧ f = path) ∨ ReachesIn entries path kind f := by
  constructor
  · rintro ⟨names, g, hbelow, hkind, rfl⟩
    cases hbelow with
    | self => exact .inl ⟨hkind, rfl⟩
    | down hmem hbelow => exact .inr ⟨_, _, hmem, _, g, hbelow, hkind, rfl⟩
  · rintro (⟨hkind, rfl⟩ | ⟨name, e, hmem, names, g, hbelow, hkind, rfl⟩)
    · exact ⟨[], _, .self _, hkind, rfl⟩
    · exact ⟨name :: names, g, .down hmem hbelow, hkind, rfl⟩

theorem reachesIn_cons {name : RawText} {e : Entry} {rest : List (RawText × Entry)} :
    ReachesIn ((name, e) :: rest) path kind f ↔
      e.Reaches (path.join name) kind f ∨ ReachesIn rest path kind f := by
  constructor
  · rintro ⟨name', e', hmem, hreaches⟩
    rcases List.mem_cons.mp hmem with heq | hmem
    · cases heq
      exact .inl hreaches
    · exact .inr ⟨name', e', hmem, hreaches⟩
  · rintro (hreaches | ⟨name', e', hmem, hreaches⟩)
    · exact ⟨name, e, List.mem_cons_self, hreaches⟩
    · exact ⟨name', e', List.mem_cons_of_mem _ hmem, hreaches⟩

end

/-- What a walk comes to, where a path goes on as `reach` says: it lists the files if all directories
can be listed, and otherwise it fails at one that cannot. -/
def Walks (reach : (Entry → Bool) → Path → Prop) : Except Path (List Path) → Prop
  | .ok files => (∀ dir, ¬ reach isUnlistable dir) ∧ ∀ f, f ∈ files ↔ reach isFile f
  | .error dir => reach isUnlistable dir

/-- A walk does not go on from what is no directory. -/
theorem walks_leaf {e : Entry} (h : e.isDirectory = false) (path : Path) :
    Walks (e.Reaches path) (.ok (if e.isFile then [path] else [])) := by
  refine ⟨fun dir hdir => ?_, fun f => ?_⟩
  · have hkind := ((reaches_of_not_isDirectory h).mp hdir).1
    cases e with
    | directory => cases h
    | _ => cases hkind
  · rw [reaches_of_not_isDirectory h]
    cases e.isFile <;> simp

mutual

/-- **A walk lists all files** at and below an entry, or fails. -/
theorem walks_files : ∀ (path : Path) (e : Entry), Walks (e.Reaches path) (e.files path)
  | path, file content => by
      rw [files]
      exact walks_leaf rfl path
  | path, barred => by
      rw [files]
      exact walks_leaf rfl path
  | path, stream content => by
      rw [files]
      exact walks_leaf rfl path
  | path, link target => by
      rw [files]
      exact walks_leaf rfl path
  | path, directory entries false => by
      rw [files]
      exact reaches_directory.mpr (.inl ⟨rfl, rfl⟩)
  | path, directory entries true => by
      have hreaches : ∀ kind f, kind (directory entries) = false →
          ((directory entries).Reaches path kind f ↔ ReachesIn entries path kind f) := by
        intro kind f hkind
        rw [reaches_directory]
        simp [hkind]
      have hin := walks_filesIn path entries
      rw [files]
      cases hfiles : filesIn path entries with
      | error dir =>
          rw [hfiles] at hin
          exact (hreaches isUnlistable dir rfl).mpr hin
      | ok l =>
          rw [hfiles] at hin
          exact ⟨fun dir => (hreaches isUnlistable dir rfl).not.mpr (hin.1 dir),
            fun f => (hin.2 f).trans (hreaches isFile f rfl).symm⟩

theorem walks_filesIn : ∀ (dir : Path) (entries : List (RawText × Entry)),
    Walks (ReachesIn entries dir) (filesIn dir entries)
  | dir, [] => by
      rw [filesIn]
      have hnone : ∀ kind f, ¬ ReachesIn [] dir kind f := by
        rintro kind f ⟨name, e, hmem, -⟩
        cases hmem
      exact ⟨hnone isUnlistable, fun f => iff_of_false List.not_mem_nil (hnone isFile f)⟩
  | dir, (name, e) :: rest => by
      have hfirst := walks_files (dir.join name) e
      have hrest := walks_filesIn dir rest
      rw [filesIn]
      cases hfiles : e.files (dir.join name) with
      | error d =>
          rw [hfiles] at hfirst
          exact reachesIn_cons.mpr (.inl hfirst)
      | ok l =>
          rw [hfiles] at hfirst
          cases hothers : filesIn dir rest with
          | error d =>
              rw [hothers] at hrest
              exact reachesIn_cons.mpr (.inr hrest)
          | ok m =>
              rw [hothers] at hrest
              refine ⟨fun d hd => ?_, fun f => ?_⟩
              · exact (reachesIn_cons.mp hd).elim (hfirst.1 d) (hrest.1 d)
              · rw [reachesIn_cons, ← hfirst.2, ← hrest.2]
                exact List.mem_append

end

end Entry

/-- A path that names a directory, followed by names that lead from there down to an entry of a
kind. -/
def FileTree.HasBelow (tree : FileTree) (kind : Entry → Bool) (dir f : Path) : Prop :=
  ∃ e, tree.find dir = .ok e ∧ e.isDirectory = true ∧ e.Reaches dir kind f

/-- A path that names a directory, followed by names that lead from there down to a file. -/
def FileTree.HasFileBelow (tree : FileTree) (dir f : Path) : Prop :=
  tree.HasBelow Entry.isFile dir f

/-- A path does not name a directory at or below which there is one that cannot be listed. -/
def FileTree.CanWalk (tree : FileTree) (dir : Path) : Prop :=
  ∀ d, ¬ tree.HasBelow Entry.isUnlistable dir d

theorem FileTree.HasBelow.isDirectory {tree : FileTree} {kind : Entry → Bool} {dir f : Path}
    (h : tree.HasBelow kind dir f) : tree.isDirectory dir = true := by
  obtain ⟨e, hfind, hdir, -⟩ := h
  rw [FileTree.isDirectory, hfind]
  exact hdir

theorem FileTree.walks_filesBelow {tree : FileTree} {dir : Path}
    (h : tree.isDirectory dir = true) :
    Entry.Walks (fun kind => tree.HasBelow kind dir) (tree.filesBelow dir) := by
  unfold isDirectory at h
  unfold filesBelow
  cases hfind : tree.find dir with
  | error fault => simp [hfind] at h
  | ok e =>
      have hdir : e.isDirectory = true := by simpa [hfind] using h
      have hreaches : ∀ kind f, tree.HasBelow kind dir f ↔ e.Reaches dir kind f := by
        intro kind f
        constructor
        · rintro ⟨e', hfind', -, hreaches⟩
          rwa [Except.ok.inj (hfind.symm.trans hfind')]
        · exact fun hreaches => ⟨e, hfind, hdir, hreaches⟩
      have hwalks := Entry.walks_files dir e
      show Entry.Walks _ (e.files dir)
      cases hfiles : e.files dir with
      | error d =>
          rw [hfiles] at hwalks
          exact (hreaches _ d).mpr hwalks
      | ok l =>
          rw [hfiles] at hwalks
          exact ⟨fun d => (hreaches _ d).not.mpr (hwalks.1 d),
            fun f => (hwalks.2 f).trans (hreaches _ f).symm⟩

/-! ### Discovery -/

theorem isSource_iff (forced : Option Language) (p : Path) : isSource forced p = true ↔
    (forced = none → ∃ language, Language.ofExtension? p.extension = some language) := by
  unfold isSource
  rw [Bool.or_eq_true, Option.isSome_iff_exists (x := Language.ofExtension? _)]
  cases forced <;> simp

/-- A path stands for another one: for itself if it is no directory, and otherwise for the source
files below it. -/
def StandsFor (tree : FileTree) (forced : Option Language) (path f : Path) : Prop :=
  (tree.isDirectory path = false ∧ f = path) ∨
    (tree.HasFileBelow path f ∧ isSource forced f = true)

section
variable (tree : FileTree) (forced : Option Language)

/-- What can come of one path. -/
theorem expand_cases (path : Path) :
    (∃ files, expand tree forced path = .ok files ∧ tree.CanWalk path ∧
      ∀ f, f ∈ files ↔ StandsFor tree forced path f) ∨
    ∃ dir, expand tree forced path = .error (walkError dir) ∧
      tree.HasBelow Entry.isUnlistable path dir := by
  unfold expand StandsFor
  cases hdir : tree.isDirectory path with
  | false =>
      have hbelow : ∀ kind f, ¬ tree.HasBelow kind path f := fun kind f h => by
        simp [h.isDirectory] at hdir
      refine .inl ⟨[path], rfl, hbelow _, fun f => ?_⟩
      simp [FileTree.HasFileBelow, hbelow]
  | true =>
      have hwalks := FileTree.walks_filesBelow hdir
      cases hfiles : tree.filesBelow path with
      | error dir =>
          rw [hfiles] at hwalks
          exact .inr ⟨dir, rfl, hwalks⟩
      | ok files =>
          rw [hfiles] at hwalks
          refine .inl ⟨_, rfl, hwalks.1, fun f => ?_⟩
          simp [List.mem_filter, hwalks.2 f, FileTree.HasFileBelow]

/-- What can come of many paths. -/
theorem expandAll_cases (paths : List Path) :
    (∃ files, expandAll tree forced paths = .ok files ∧ (∀ path ∈ paths, tree.CanWalk path) ∧
      ∀ f, f ∈ files ↔ ∃ path ∈ paths, StandsFor tree forced path f) ∨
    ∃ path ∈ paths, ∃ dir, expandAll tree forced paths = .error (walkError dir) ∧
      tree.HasBelow Entry.isUnlistable path dir := by
  induction paths with
  | nil => exact .inl ⟨[], rfl, by simp, by simp⟩
  | cons path paths ih =>
      rw [expandAll]
      rcases expand_cases tree forced path with ⟨l, hl, hwalk, hmem⟩ | ⟨dir, hdir, hbelow⟩
      · rcases ih with ⟨m, hm, hwalks, hmems⟩ | ⟨path', hpath', dir, hdir, hbelow⟩
        · rw [hl, hm]
          refine .inl ⟨l ++ m, rfl, List.forall_mem_cons.mpr ⟨hwalk, hwalks⟩, fun f => ?_⟩
          rw [List.mem_append, hmem, hmems]
          simp
        · rw [hl, hdir]
          exact .inr ⟨path', List.mem_cons_of_mem path hpath', dir, rfl, hbelow⟩
      · rw [hdir]
        exact .inr ⟨path, List.mem_cons_self, dir, rfl, hbelow⟩

/-- What can come of a discovery. -/
theorem discover_cases (paths : List Path) :
    (∃ files, discover tree paths forced = .ok (Path.sorted files) ∧
      (∀ path ∈ paths, tree.CanWalk path) ∧
      ∀ f, f ∈ files ↔ ∃ path ∈ paths, StandsFor tree forced path f) ∨
    ∃ path ∈ paths, ∃ dir, discover tree paths forced = .error (walkError dir) ∧
      tree.HasBelow Entry.isUnlistable path dir := by
  unfold discover
  rcases expandAll_cases tree forced paths with
    ⟨files, hfiles, hrest⟩ | ⟨path, hpath, dir, hdir, hbelow⟩
  · rw [hfiles]
    exact .inl ⟨files, rfl, hrest⟩
  · rw [hdir]
    exact .inr ⟨path, hpath, dir, rfl, hbelow⟩

end

section
variable {tree : FileTree} {forced : Option Language} {paths : List Path}

/-- The files that are discovered are those the paths stand for. -/
theorem discover_eq_ok {found : List Path} (h : discover tree paths forced = .ok found) :
    (∀ path ∈ paths, tree.CanWalk path) ∧ ∃ files, found = Path.sorted files ∧
      ∀ f, f ∈ files ↔ ∃ path ∈ paths, StandsFor tree forced path f := by
  rcases discover_cases tree forced paths with
    ⟨files, hfiles, hwalks, hmem⟩ | ⟨path, -, dir, hdir, -⟩
  · exact ⟨hwalks, files, Except.ok.inj (h.symm.trans hfiles), hmem⟩
  · cases h.symm.trans hdir

/-- A discovery that fails does so at a directory that cannot be listed. -/
theorem discover_eq_error {e : AnalysisError} (h : discover tree paths forced = .error e) :
    ∃ path ∈ paths, ∃ dir, tree.HasBelow Entry.isUnlistable path dir ∧ e = walkError dir := by
  rcases discover_cases tree forced paths with
    ⟨files, hfiles, -, -⟩ | ⟨path, hpath, dir, hdir, hbelow⟩
  · cases h.symm.trans hfiles
  · exact ⟨path, hpath, dir, hbelow, Except.error.inj (h.symm.trans hdir)⟩

theorem exists_discover : (∃ found, discover tree paths forced = .ok found) ↔
    ∀ path ∈ paths, tree.CanWalk path := by
  constructor
  · rintro ⟨found, hfound⟩
    exact (discover_eq_ok hfound).1
  · intro hwalks
    rcases discover_cases tree forced paths with
      ⟨files, hfiles, -, -⟩ | ⟨path, hpath, dir, -, hbelow⟩
    · exact ⟨_, hfiles⟩
    · exact absurd hbelow (hwalks path hpath dir)

end

/-- **Discovery is exact.**  It succeeds if and only if no given directory has one at or below it
that cannot be listed, and fails with the error of such a directory.  The discovered paths increase
strictly, so that no two of them are the same.  A path is among them, in one spelling or another, if
and only if it is a given path that is no directory, or a file below a given directory whose
extension stands for a language, or any file there if a language is forced.  So the result depends
only on which paths are given, but for their spelling. -/
theorem discover_exact (tree : FileTree) (paths : List Path) (forced : Option Language) :
    ((∃ found, discover tree paths forced = .ok found) ↔ ∀ path ∈ paths, tree.CanWalk path) ∧
    (∀ e, discover tree paths forced = .error e →
      ∃ path ∈ paths, ∃ dir, tree.HasBelow Entry.isUnlistable path dir ∧ e = walkError dir) ∧
    (∀ found, discover tree paths forced = .ok found →
      found.Pairwise (fun p q => p.order q = .lt) ∧
      ∀ p : Path, (∃ q ∈ found, p.same q = true) ↔
        (∃ q ∈ paths, tree.isDirectory q = false ∧ p.same q = true) ∨
        ∃ dir ∈ paths, ∃ f, tree.HasFileBelow dir f ∧
          (forced = none → ∃ language, Language.ofExtension? f.extension = some language) ∧
          p.same f = true) ∧
    ∀ others : List Path, (∀ p, p ∈ paths ↔ p ∈ others) →
      ∀ found, discover tree paths forced = .ok found →
        ∃ found', discover tree others forced = .ok found' ∧
          List.Forall₂ (fun p q => p.same q = true) found found' := by
  refine ⟨exists_discover, fun e => discover_eq_error, fun found hfound => ?_,
    fun others hothers found hfound => ?_⟩
  · obtain ⟨-, files, rfl, hmem⟩ := discover_eq_ok hfound
    refine ⟨Path.pairwise_sorted _, fun p => ?_⟩
    rw [Path.same_sorted]
    simp only [hmem, StandsFor, isSource_iff]
    constructor
    · rintro ⟨f, ⟨path, hpath, ⟨hfile, rfl⟩ | ⟨hbelow, hsource⟩⟩, hsame⟩
      · exact .inl ⟨f, hpath, hfile, hsame⟩
      · exact .inr ⟨path, hpath, f, hbelow, hsource, hsame⟩
    · rintro (⟨q, hq, hfile, hsame⟩ | ⟨dir, hdir, f, hbelow, hsource, hsame⟩)
      · exact ⟨q, ⟨q, hq, .inl ⟨hfile, rfl⟩⟩, hsame⟩
      · exact ⟨f, ⟨dir, hdir, .inr ⟨hbelow, hsource⟩⟩, hsame⟩
  · obtain ⟨hwalks, files, rfl, hmem⟩ := discover_eq_ok hfound
    have hwalks' : ∀ path ∈ others, tree.CanWalk path := fun path hpath =>
      hwalks path ((hothers path).mpr hpath)
    obtain ⟨found', hfound'⟩ := exists_discover.mpr hwalks'
    obtain ⟨-, files', rfl, hmem'⟩ := discover_eq_ok hfound'
    refine ⟨_, hfound', Path.sorted_of_mem_iff fun f => ?_⟩
    rw [hmem, hmem']
    simp only [hothers]

/-- A walk takes neither links nor streams for files. -/
example : discover
    ⟨.directory [("d", .directory [("a.py", .file "".toUTF8), ("b.py", .link ⟨"a.py"⟩),
      ("c.py", .stream "".toUTF8), ("d.txt", .file "".toUTF8)])], []⟩ [⟨"d"⟩] none =
    .ok [⟨"d/a.py"⟩] := by
  cbv

/-- A walk fails at a directory that cannot be listed, whatever it has found before. -/
example : discover
    ⟨.directory [("d", .directory [("a.py", .file "".toUTF8), ("e", .directory [] false)])], []⟩
    [⟨"d"⟩] none = .error (walkError ⟨"d/e"⟩) := by
  cbv

end DecisionScore
