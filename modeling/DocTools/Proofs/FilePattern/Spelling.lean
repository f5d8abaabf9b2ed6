import DocTools.Proofs.FilePattern.Walk

/-! # How found paths are spelled

A walk keeps the spelling of the directory but for `.` at its beginning, which goes away. The main
statement, `reached_of_walk`: the walk along a directory ends at the top of the tree when the
directory is spelled with `.` alone, and otherwise at a path with the components of the directory
without a leading `.`. By `inReach_iff_of_walk` the directory tells which files have paths that are not
too long. -/
namespace DocTools.FilePattern
set_option autoImplicit false

open DocTools.Path (Component Continues follow resolve)

/-! ## One step -/

/-- All that a name can lead to: `.` and the empty name stay, `..` goes up, and any other name is that
of an entry. -/
theorem Spot.lookUp?_cases {tree : FileTree} {spot next : Spot} {name : Text}
    (h : spot.lookUp? tree name = some next) : spot.entry = .directory ∧
      (name = ['.'] ∧ next = ⟨spot.pathTo name, spot.location, .directory⟩ ∨
        name = [] ∧ spot.pathTo name ≠ [] ∧ next = ⟨spot.pathTo name, spot.location, .directory⟩ ∨
        name = ['.', '.'] ∧ spot.location ≠ [] ∧
          next = ⟨spot.pathTo name, spot.location.dropLast, .directory⟩ ∨
        IsEntryName name ∧ ∃ entry, tree.find? (spot.location ++ [name]) = some entry ∧
          next = ⟨spot.pathTo name, spot.location ++ [name], entry⟩) := by
  unfold Spot.lookUp? at h
  cases hentry : spot.entry with
  | file content =>
    rw [hentry] at h
    cases h
  | directory =>
    rw [hentry] at h
    simp only [Entry.isDirectory, Bool.not_true, Bool.false_eq_true, if_false] at h
    refine ⟨rfl, ?_⟩
    split at h
    · rename_i hhere
      exact .inl ⟨hhere, (Option.some.inj h).symm⟩
    split at h
    · rename_i hup
      split at h
      · cases h
      · rename_i hne
        exact .inr (.inr (.inl ⟨hup, hne, (Option.some.inj h).symm⟩))
    split at h
    · rename_i hnil
      split at h
      · cases h
      · rename_i hne
        exact .inr (.inl ⟨hnil, hne, (Option.some.inj h).symm⟩)
    · obtain ⟨entry, hfind, hnext⟩ := Option.map_eq_some_iff.mp h
      have hname := FileTree.isEntryName_of_find? (Option.isSome_of_eq_some hfind) name
        (List.mem_append_right _ (List.mem_singleton_self name))
      exact .inr (.inr (.inr ⟨hname, entry, hfind, hnext.symm⟩))

/-- A name that leads somewhere is one without a slash. -/
theorem slash_not_mem_of_lookUp? {tree : FileTree} {spot next : Spot} {name : Text}
    (h : spot.lookUp? tree name = some next) : '/' ∉ name := by
  obtain ⟨-, ⟨rfl, -⟩ | ⟨rfl, -, -⟩ | ⟨rfl, -, -⟩ | ⟨hname, -⟩⟩ := Spot.lookUp?_cases h
  · decide
  · decide
  · decide
  · exact hname.slash_not_mem

/-- A step to a name spells it behind the path and follows it from the location. -/
theorem path_location_of_lookUp? {tree : FileTree} {spot next : Spot} {name : Text}
    (h : spot.lookUp? tree name = some next) :
    next.path = spot.pathTo name ∧
      next.location = ((Path.names name).filterMap Component.ofName?).foldl follow spot.location := by
  obtain ⟨-, ⟨rfl, rfl⟩ | ⟨rfl, -, rfl⟩ | ⟨rfl, -, rfl⟩ | ⟨hname, entry, -, rfl⟩⟩ :=
    Spot.lookUp?_cases h
  · exact ⟨rfl, rfl⟩
  · exact ⟨rfl, rfl⟩
  · exact ⟨rfl, rfl⟩
  · rw [Path.names_of_isEntryName hname,
      List.filterMap_cons_some (Path.ofName?_of_isEntryName hname)]
    exact ⟨rfl, rfl⟩

/-! ## At the top -/

/-- The walk has not left the top of the tree. -/
structure AtTop (spot : Spot) : Prop where
  path_eq : spot.path = ['.']
  location_eq : spot.location = []

theorem atTop_top : AtTop .top := ⟨rfl, rfl⟩

theorem AtTop.pathTo_eq {spot : Spot} (h : AtTop spot) (name : Text) : spot.pathTo name = name := by
  rw [Spot.pathTo, h.path_eq]
  rfl

/-- The first name after the top has to be a name indeed: the empty one and `..` lead nowhere. -/
theorem AtTop.ne_of_lookUp? {tree : FileTree} {spot next : Spot} {name : Text} (h : AtTop spot)
    (hnext : spot.lookUp? tree name = some next) : name ≠ [] ∧ name ≠ ['.', '.'] := by
  constructor
  · rintro rfl
    unfold Spot.lookUp? at hnext
    rw [h.pathTo_eq] at hnext
    split at hnext <;> cases hnext
  · rintro rfl
    unfold Spot.lookUp? at hnext
    rw [h.location_eq] at hnext
    split at hnext <;> cases hnext

/-- `.` stays at the top. -/
theorem AtTop.of_here {tree : FileTree} {spot next : Spot} (h : AtTop spot)
    (hnext : spot.lookUp? tree ['.'] = some next) : AtTop next := by
  obtain ⟨hpath, hlocation⟩ := path_location_of_lookUp? hnext
  rw [h.pathTo_eq] at hpath
  rw [h.location_eq] at hlocation
  exact ⟨hpath, hlocation⟩

/-! ## Below the top -/

/-- The walk has come to a path that begins with a name, and is where the path leads. -/
structure Walked (names : List Text) (spot : Spot) : Prop where
  ne_nil : spot.path ≠ []
  relative : spot.path.isAbsolute = false
  names_eq : spot.path.names = names.filter fun name => !name.isEmpty
  head_ne : names.head? ≠ some []
  begins : spot.path.names.head? ≠ some ['.']
  tidy : spot.path.Tidy
  location_eq : spot.location = resolve spot.path

theorem here_not_mem_filterMap (names : List Text) : Component.here ∉ names.filterMap Component.ofName? := by
  intro h
  obtain ⟨name, -, hname⟩ := List.mem_filterMap.mp h
  unfold Component.ofName? at hname
  split at hname
  · cases hname
  · split at hname <;> cases hname

theorem Walked.here_not_mem {names : List Text} {spot : Spot} (h : Walked names spot) :
    Component.here ∉ spot.path.components := by
  rw [Path.components_of_head h.relative h.begins]
  exact here_not_mem_filterMap _

theorem Walked.pathTo_eq {names : List Text} {spot : Spot} (h : Walked names spot) (name : Text) :
    spot.pathTo name = Path.join spot.path name := by
  rw [Spot.pathTo, if_neg]
  intro hc
  have := h.here_not_mem
  rw [hc] at this
  exact this List.mem_cons_self

theorem names_of_slash_not_mem {name : Text} (h : '/' ∉ name) :
    Path.names name = [name].filter fun n => !n.isEmpty := by
  rw [Path.names, Text.splitOn_of_not_mem h]

theorem AtTop.walked {tree : FileTree} {spot next : Spot} {name : Text} (h : AtTop spot)
    (hslash : '/' ∉ name) (hhere : name ≠ ['.']) (hnext : spot.lookUp? tree name = some next) :
    Walked [name] next := by
  obtain ⟨hnil, hup⟩ := h.ne_of_lookUp? hnext
  obtain ⟨hpath, hlocation⟩ := path_location_of_lookUp? hnext
  rw [h.pathTo_eq] at hpath
  have hnames := Path.names_of_name hnil hslash
  have hrelative := Path.isAbsolute_of_slash_not_mem hslash
  have hbegins : (Path.names name).head? ≠ some ['.'] := by
    rw [hnames]
    exact fun hc => hhere (Option.some.inj hc)
  constructor
  case ne_nil => rwa [hpath]
  case relative => rwa [hpath]
  case names_eq => rw [hpath, names_of_slash_not_mem hslash]
  case head_ne => exact fun hc => hnil (Option.some.inj hc)
  case begins => rwa [hpath]
  case tidy =>
    rw [hpath]
    exact Path.tidy_of_name hnil hslash
  case location_eq =>
    rw [hpath, hlocation, h.location_eq, resolve, Path.components_of_head hrelative hbegins]

theorem Walked.step {tree : FileTree} {names : List Text} {spot next : Spot} {name : Text}
    (h : Walked names spot) (hslash : '/' ∉ name) (hnext : spot.lookUp? tree name = some next) :
    Walked (names ++ [name]) next := by
  obtain ⟨hpath, hlocation⟩ := path_location_of_lookUp? hnext
  have hcont := Path.continues_join h.ne_nil (Path.isAbsolute_of_slash_not_mem hslash)
  rw [← h.pathTo_eq, ← hpath] at hcont
  have hne : names ≠ [] := by
    rintro rfl
    exact Path.names_ne_nil h.ne_nil h.relative h.names_eq
  have hnames := Path.names_ne_nil h.ne_nil h.relative
  constructor
  case ne_nil => exact hcont.ne_nil
  case relative => rw [hcont.isAbsolute_eq, h.relative]
  case names_eq => rw [hcont.names_eq, h.names_eq, names_of_slash_not_mem hslash, List.filter_append]
  case head_ne =>
    rw [List.head?_append_of_ne_nil names hne]
    exact h.head_ne
  case begins =>
    rw [hcont.names_eq, List.head?_append_of_ne_nil _ hnames]
    exact h.begins
  case tidy =>
    rw [hpath, h.pathTo_eq]
    exact h.tidy.join h.ne_nil h.relative hslash
  case location_eq =>
    rw [hlocation, h.location_eq, resolve, resolve, hcont.components_eq h.ne_nil, List.foldl_append]

theorem Walked.walk {tree : FileTree} {names more : List Text} {spot last : Spot}
    (h : Walked names spot) (hslash : ∀ name ∈ more, '/' ∉ name)
    (hlast : FilePattern.walk tree spot more = some last) : Walked (names ++ more) last := by
  induction more generalizing names spot with
  | nil =>
    cases hlast
    rwa [List.append_nil]
  | cons name more ih =>
    rw [walk_cons, Option.bind_eq_some_iff] at hlast
    obtain ⟨next, hnext, hlast⟩ := hlast
    have hstep := h.step (hslash name List.mem_cons_self) hnext
    have hwalk := ih hstep (fun n hn => hslash n (List.mem_cons_of_mem _ hn)) hlast
    rwa [List.append_assoc] at hwalk

/-- A walk from the top: `.` stays there, and the first other name leaves it for good. -/
theorem AtTop.walk {tree : FileTree} {names : List Text} {spot last : Spot} (h : AtTop spot)
    (hslash : ∀ name ∈ names, '/' ∉ name) (hlast : FilePattern.walk tree spot names = some last) :
    ((∀ name ∈ names, name = ['.']) ∧ AtTop last) ∨
      ∃ lead rest, names = lead ++ rest ∧ (∀ name ∈ lead, name = ['.']) ∧ Walked rest last := by
  induction names generalizing spot with
  | nil =>
    cases hlast
    exact .inl ⟨fun _ hn => (nomatch hn), h⟩
  | cons name names ih =>
    rw [walk_cons, Option.bind_eq_some_iff] at hlast
    obtain ⟨next, hnext, hlast⟩ := hlast
    have hname := hslash name List.mem_cons_self
    have hnames := fun n hn => hslash n (List.mem_cons_of_mem name hn)
    by_cases hhere : name = ['.']
    · have htop : AtTop next := h.of_here (hhere ▸ hnext)
      rcases ih htop hnames hlast with ⟨hall, hlast⟩ | ⟨lead, rest, rfl, hlead, hwalked⟩
      · refine .inl ⟨fun n hn => ?_, hlast⟩
        exact (List.mem_cons.mp hn).elim (fun he => he.trans hhere) (hall n)
      · refine .inr ⟨name :: lead, rest, rfl, fun n hn => ?_, hwalked⟩
        exact (List.mem_cons.mp hn).elim (fun he => he.trans hhere) (hlead n)
    · exact .inr ⟨[], name :: names, rfl, (fun _ hn => nomatch hn),
        (h.walked hname hhere hnext).walk hnames hlast⟩

/-! ## The whole directory -/

inductive Reached (dir : Path) (spot : Spot) : Prop where
  /-- The directory is the top, spelled with `.` alone. -/
  | top (components_eq : dir.components = [.here]) (atTop : AtTop spot)
  /-- The directory is spelled as the path is. -/
  | plain {names : List Text} (walked : Walked names spot)
      (components_eq : dir.components = spot.path.components)
  /-- The directory is spelled with `.` in front of the path. -/
  | dotted {names : List Text} (walked : Walked names spot)
      (components_eq : dir.components = .here :: spot.path.components)

theorem names_eq_filter_trimEnd (dir : Path) :
    dir.names = (Text.splitOn '/' (trimEnd dir)).filter fun name => !name.isEmpty :=
  (names_trimEnd dir).symm

theorem isAbsolute_eq_false {dir : Path} (h : (Text.splitOn '/' (trimEnd dir)).head? ≠ some []) :
    dir.isAbsolute = false := by
  cases dir with
  | nil => rfl
  | cons c rest =>
    apply beq_false_of_ne
    intro hc
    obtain rfl : c = '/' := Option.some.inj hc
    apply h
    obtain ⟨behind, hbegins⟩ : trimEnd ('/' :: rest) <+: '/' :: rest := List.rdropWhile_prefix _ _
    cases ht : trimEnd ('/' :: rest) with
    | nil => rfl
    | cons d front =>
      rw [ht] at hbegins
      rw [(List.cons.inj hbegins).1, Text.splitOn_cons_mark]
      rfl

theorem isAbsolute_eq_false_of_lead {dir : Path} {lead rest : List Text}
    (hpieces : Text.splitOn '/' (trimEnd dir) = lead ++ rest) (hlead : ∀ name ∈ lead, name = ['.'])
    (hrest : rest.head? ≠ some []) : dir.isAbsolute = false := by
  apply isAbsolute_eq_false
  rw [hpieces]
  cases lead with
  | nil => exact hrest
  | cons first lead =>
    rw [hlead first List.mem_cons_self]
    exact fun hc => nomatch hc

theorem filter_of_forall_here {names : List Text} (h : ∀ name ∈ names, name = ['.']) :
    (names.filter fun name => !name.isEmpty) = names := by
  rw [List.filter_eq_self]
  intro name hname
  rw [h name hname]
  rfl

theorem filterMap_of_forall_here {names : List Text} (h : ∀ name ∈ names, name = ['.']) :
    names.filterMap Component.ofName? = [] := by
  rw [List.filterMap_eq_nil_iff]
  intro name hname
  rw [h name hname]
  rfl

theorem components_of_here {path : Path} (habs : path.isAbsolute = false)
    (hhead : path.names.head? = some ['.']) :
    path.components = .here :: path.names.filterMap Component.ofName? := by
  rw [Path.components_eq_append, habs, if_pos hhead]
  rfl

theorem reached_of_walk {tree : FileTree} {dir : Path} {spot : Spot}
    (h : walk tree .top (Text.splitOn '/' (trimEnd dir)) = some spot) : Reached dir spot := by
  have hslash : ∀ name ∈ Text.splitOn '/' (trimEnd dir), '/' ∉ name :=
    fun name hname => Text.not_mem_of_mem_splitOn hname
  have hnames := names_eq_filter_trimEnd dir
  -- either all pieces are `.`, or some of them come before the first name
  rcases atTop_top.walk hslash h with ⟨hall, htop⟩ | ⟨lead, rest, hpieces, hlead, hwalked⟩
  · have habs := isAbsolute_eq_false_of_lead (List.append_nil _).symm hall (fun hc => nomatch hc)
    obtain ⟨first, more, hpieces⟩ := List.exists_cons_of_ne_nil (Text.splitOn_ne_nil '/' (trimEnd dir))
    have hfirst : first = ['.'] := hall first (hpieces ▸ List.mem_cons_self)
    rw [filter_of_forall_here hall] at hnames
    refine .top ?_ htop
    rw [components_of_here habs (by rw [hnames, hpieces, hfirst]; rfl), hnames,
      filterMap_of_forall_here hall]
  · have habs := isAbsolute_eq_false_of_lead hpieces hlead hwalked.head_ne
    rw [hpieces, List.filter_append, filter_of_forall_here hlead, ← hwalked.names_eq] at hnames
    have hpath := Path.components_of_head hwalked.relative hwalked.begins
    cases lead with
    | nil =>
      refine .plain hwalked ?_
      rw [Path.components_of_head habs (by rw [hnames]; exact hwalked.begins), hnames, hpath]
      rfl
    | cons first lead =>
      have hfirst : first = ['.'] := hlead first List.mem_cons_self
      refine .dotted hwalked ?_
      rw [components_of_here habs (by rw [hnames, hfirst]; rfl), hnames, hpath,
        List.filterMap_append, filterMap_of_forall_here hlead]
      rfl

/-! ## Files that are found -/

theorem AtTop.pathDown_eq {spot : Spot} (h : AtTop spot) {below : List Text} (hne : below ≠ [])
    (hnames : ∀ name ∈ below, IsEntryName name) : spot.pathDown below = FileTree.pathOf below := by
  obtain ⟨name, more, rfl⟩ := List.exists_cons_of_ne_nil hne
  rw [Spot.pathDown, h.pathTo_eq]
  exact Path.foldl_join_eq_pathOf hnames

theorem Walked.continues_pathDown {names : List Text} {spot : Spot} (h : Walked names spot)
    {below : List Text} (hne : below ≠ []) (hnames : ∀ name ∈ below, IsEntryName name) :
    Continues spot.path below (spot.pathDown below) := by
  obtain ⟨name, more, rfl⟩ := List.exists_cons_of_ne_nil hne
  rw [Spot.pathDown, h.pathTo_eq]
  exact Path.continues_foldl_join h.ne_nil hnames

theorem Walked.components_ne_nil {names : List Text} {spot : Spot} (h : Walked names spot) :
    spot.path.components ≠ [] := by
  have hbegins := h.begins
  obtain ⟨first, more, hfirst⟩ := List.exists_cons_of_ne_nil (Path.names_ne_nil h.ne_nil h.relative)
  rw [Path.components_of_head h.relative hbegins, hfirst]
  rw [hfirst] at hbegins
  have hhere : first ≠ ['.'] := fun hc => hbegins (congrArg some hc)
  by_cases hup : first = ['.', '.']
  · rw [List.filterMap_cons_some (by rw [Component.ofName?, if_neg hhere, if_pos hup])]
    exact List.cons_ne_nil _ _
  · rw [List.filterMap_cons_some (by rw [Component.ofName?, if_neg hhere, if_neg hup])]
    exact List.cons_ne_nil _ _

theorem Walked.pathDown_eq {names : List Text} {spot : Spot} (h : Walked names spot)
    {below : List Text} (hne : below ≠ []) (hnames : ∀ name ∈ below, IsEntryName name) :
    spot.pathDown below = FileTree.pathOf (spot.path.names ++ below) := by
  rw [← h.tidy.foldl_join h.ne_nil h.relative hne hnames]
  obtain ⟨name, more, rfl⟩ := List.exists_cons_of_ne_nil hne
  rw [Spot.pathDown, h.pathTo_eq, List.foldl_cons]

/-- The path of what is `below` a directory, as a search spells it: without the dots at the beginning
and with single slashes. -/
def pathBelow (dir : Path) (below : List Text) : Path :=
  FileTree.pathOf (dir.names.dropWhile (· = ['.']) ++ below)

theorem pathDown_of_walk {tree : FileTree} {dir : Path} {spot : Spot}
    (h : walk tree .top (Text.splitOn '/' (trimEnd dir)) = some spot) {below : List Text}
    (hne : below ≠ []) (hnames : ∀ name ∈ below, IsEntryName name) :
    spot.pathDown below = pathBelow dir below := by
  have hslash : ∀ name ∈ Text.splitOn '/' (trimEnd dir), '/' ∉ name :=
    fun name hname => Text.not_mem_of_mem_splitOn hname
  have hdir := names_eq_filter_trimEnd dir
  have hdrop {lead : List Text} (hlead : ∀ name ∈ lead, name = ['.']) (rest : List Text) :
      (lead ++ rest).dropWhile (· = ['.']) = rest.dropWhile (· = ['.']) :=
    List.dropWhile_append_of_pos fun name hname => decide_eq_true (hlead name hname)
  rw [pathBelow]
  rcases atTop_top.walk hslash h with ⟨hall, htop⟩ | ⟨lead, rest, hpieces, hlead, hwalked⟩
  · have hnone := hdrop hall []
    rw [List.append_nil, List.dropWhile_nil] at hnone
    rw [hdir, filter_of_forall_here hall, hnone, htop.pathDown_eq hne hnames]
    rfl
  · obtain ⟨first, more, hfirst⟩ :=
      List.exists_cons_of_ne_nil (Path.names_ne_nil hwalked.ne_nil hwalked.relative)
    have hhere : first ≠ ['.'] := fun hc => hwalked.begins (by rw [hfirst, hc]; rfl)
    rw [hpieces, List.filter_append, filter_of_forall_here hlead, ← hwalked.names_eq] at hdir
    rw [hdir, hdrop hlead, hfirst, List.dropWhile_cons_of_neg (by simpa using hhere), ← hfirst,
      hwalked.pathDown_eq hne hnames]

/-- The directory is written without dots. -/
def WithoutDots (dir : Path) : Prop := ['.'] ∉ dir.names ∧ ['.', '.'] ∉ dir.names

instance (dir : Path) : Decidable (WithoutDots dir) :=
  inferInstanceAs (Decidable (['.'] ∉ dir.names ∧ ['.', '.'] ∉ dir.names))

/-- What is `below` the directory can be told by a path, unless the dots of the directory make it too
long. -/
def InReach (dir : Path) (below : List Text) : Prop :=
  WithoutDots dir ∨ FileTree.withinLimit (pathBelow dir below)

instance (dir : Path) (below : List Text) : Decidable (InReach dir below) :=
  inferInstanceAs (Decidable (WithoutDots dir ∨ FileTree.withinLimit (pathBelow dir below)))

theorem resolve_of_withoutDots {dir : Path} (h : WithoutDots dir) : resolve dir = dir.names := by
  have hnames : dir.names.filterMap Component.ofName? = dir.names.map .name := by
    rw [← List.filterMap_eq_map]
    refine List.filterMap_congr fun name hname => ?_
    have hhere : name ≠ ['.'] := fun hc => h.1 (hc ▸ hname)
    have hup : name ≠ ['.', '.'] := fun hc => h.2 (hc ▸ hname)
    rw [Component.ofName?, if_neg hhere, if_neg hup]
    rfl
  have hhead : dir.names.head? ≠ some ['.'] := fun hc => h.1 (List.mem_of_head? hc)
  rw [resolve, Path.components_eq_append, if_neg hhead, hnames, List.foldl_append]
  split
  · exact Path.foldl_follow_names [] dir.names
  · exact Path.foldl_follow_names [] dir.names

/-- Entries of a tree are never too far away for a directory without dots. -/
theorem inReach_iff {tree : FileTree} {dir : Path} {below : List Text}
    (h : (tree.find? (resolve dir ++ below)).isSome) :
    InReach dir below ↔ FileTree.withinLimit (pathBelow dir below) := by
  refine or_iff_right_of_imp fun hdots => ?_
  have hhead : dir.names.dropWhile (· = ['.']) = dir.names := by
    cases hnames : dir.names with
    | nil => rfl
    | cons first more =>
      have hfirst : first ≠ ['.'] := fun hc => hdots.1 (by rw [hnames, hc]; exact List.mem_cons_self)
      exact List.dropWhile_cons_of_neg (by simpa using hfirst)
  rw [pathBelow, hhead, ← resolve_of_withoutDots hdots]
  exact decide_eq_true (FileTree.size_le_of_find? h)

/-- How the path of a file `below` a directory is spelled. -/
inductive SpelledBelow (dir : Path) (below : List Text) (path : Path) : Prop where
  | top (components_eq : dir.components = [.here]) (path_eq : path = FileTree.pathOf below)
  | plain (not_mem : .here ∉ dir.components)
      (components_eq : path.components = dir.components ++ below.map .name)
  | dotted {front : List Component} (ne_nil : front ≠ []) (not_mem : .here ∉ front)
      (dir_eq : dir.components = .here :: front)
      (components_eq : path.components = front ++ below.map .name)

/-- A file that a search below a directory finds, and where it is below it. -/
structure FoundBelow (tree : FileTree) (dir : Path) (below : List Text) (path : Path) : Prop where
  ne_nil : below ≠ []
  names : ∀ name ∈ below, IsEntryName name
  relative : path.isAbsolute = false
  spelled : SpelledBelow dir below path
  resolve_eq : resolve path = resolve dir ++ below
  stands : ∃ content, tree.find? (resolve dir ++ below) = some (.file content)

theorem Walked.components_pathDown {names : List Text} {spot : Spot} (h : Walked names spot)
    {below : List Text} (hne : below ≠ []) (hnames : ∀ name ∈ below, IsEntryName name) :
    (spot.pathDown below).components = spot.path.components ++ below.map .name := by
  rw [(h.continues_pathDown hne hnames).components_eq h.ne_nil, Path.filterMap_ofName? hnames]

theorem Walked.foundBelow {tree : FileTree} {dir : Path} {names below : List Text} {spot : Spot}
    {content : Content} (h : Walked names spot) (hne : below ≠ [])
    (hnames : ∀ name ∈ below, IsEntryName name) (hresolve : resolve dir = spot.location)
    (hfind : tree.find? (spot.location ++ below) = some (.file content))
    (hspelled : SpelledBelow dir below (spot.pathDown below)) :
    FoundBelow tree dir below (spot.pathDown below) := by
  refine ⟨hne, hnames, ?_, hspelled, ?_, content, by rw [hresolve, hfind]⟩
  · rw [(h.continues_pathDown hne hnames).isAbsolute_eq, h.relative]
  · rw [Path.resolve_of_components (h.components_pathDown hne hnames), hresolve, h.location_eq, resolve]

/-- A walk along a directory ends where the directory leads. -/
theorem resolve_of_walk {tree : FileTree} {dir : Path} {spot : Spot}
    (h : walk tree .top (Text.splitOn '/' (trimEnd dir)) = some spot) :
    resolve dir = spot.location := by
  cases reached_of_walk h with
  | top hdir htop =>
    rw [htop.location_eq, resolve, hdir]
    rfl
  | plain hwalked hdir => rw [hwalked.location_eq, resolve, resolve, hdir]
  | dotted hwalked hdir =>
    rw [hwalked.location_eq, resolve, resolve, hdir]
    rfl

/-- What is below the end of the walk is in reach if its path is not too long. -/
theorem inReach_iff_of_walk {tree : FileTree} {dir : Path} {spot : Spot}
    (hspot : walk tree .top (Text.splitOn '/' (trimEnd dir)) = some spot) {below : List Text}
    (hne : below ≠ []) {entry : Entry} (hfind : tree.find? (spot.location ++ below) = some entry) :
    InReach dir below ↔
      FileTree.withinLimit (spot.down (spot.location ++ below, entry)).path := by
  have hstands := Option.isSome_of_eq_some hfind
  have hnames : ∀ name ∈ below, IsEntryName name := fun name hname =>
    FileTree.isEntryName_of_find? hstands name (List.mem_append_right _ hname)
  rw [← resolve_of_walk hspot] at hstands
  rw [inReach_iff hstands, Spot.down, List.drop_left, pathDown_of_walk hspot hne hnames]

/-- A file below the end of the walk along a directory. -/
theorem foundBelow_of_walk {tree : FileTree} {dir : Path} {spot : Spot}
    (hspot : walk tree .top (Text.splitOn '/' (trimEnd dir)) = some spot) {below : List Text}
    (hne : below ≠ []) {content : Content}
    (hfind : tree.find? (spot.location ++ below) = some (.file content)) :
    FoundBelow tree dir below (spot.pathDown below) := by
  have hnames : ∀ n ∈ below, IsEntryName n := by
    intro n hn
    exact FileTree.isEntryName_of_find? (by rw [hfind]; rfl) n (List.mem_append_right _ hn)
  have hresolve := resolve_of_walk hspot
  cases reached_of_walk hspot with
  | top hdir htop =>
    have hpath := htop.pathDown_eq hne hnames
    refine ⟨hne, hnames, ?_, .top hdir hpath, ?_, content, by rw [hresolve, hfind]⟩
    · rw [hpath, Path.isAbsolute_pathOf hnames]
    · rw [hpath, hresolve, htop.location_eq, Path.resolve_pathOf hnames]
      rfl
  | plain hwalked hdir =>
    have hhere := hwalked.here_not_mem
    have hcomponents := hwalked.components_pathDown hne hnames
    rw [← hdir] at hhere hcomponents
    exact hwalked.foundBelow hne hnames hresolve hfind (.plain hhere hcomponents)
  | dotted hwalked hdir =>
    exact hwalked.foundBelow hne hnames hresolve hfind (.dotted hwalked.components_ne_nil
      hwalked.here_not_mem hdir (hwalked.components_pathDown hne hnames))

theorem foundBelow_of_mem_files {tree : FileTree} {dir path : Path} {extension : Text}
    (h : path ∈ files tree ⟨segmentsBelow dir extension, false⟩) :
    ∃ below, FoundBelow tree dir below path := by
  obtain ⟨-, spot, hspot, below, content, rfl, hextension, hfind⟩ := (mem_files_iff ..).mp h
  exact ⟨below, foundBelow_of_walk hspot hextension.ne_nil hfind⟩

end DocTools.FilePattern
