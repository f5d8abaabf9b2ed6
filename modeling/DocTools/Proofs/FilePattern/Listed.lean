import DocTools.Proofs.FilePattern.Arrival

/-! # What a search below a directory lists

The search for an extension finds every file below the directory whose name has it, each once, and
lists them in the order of paths. The main statements: `Walked.listsWhere` for any search that finds
files by where they are below the directory, and `lists_files`, which describes the list by the tree
alone: the walk along the directory leaves no trace in it. -/
namespace DocTools

namespace Path
set_option autoImplicit false

theorem perm_sort (paths : List Path) : (sort paths).Perm paths := List.mergeSort_perm _ _

theorem le_trans {a b c : Path} (h : le a b) (h' : le b c) : le a c := by
  unfold le notAfter at *
  rw [Bool.not_eq_true', decide_eq_false_iff_not] at *
  exact List.not_lt.mpr (List.le_trans (List.not_lt.mp h) (List.not_lt.mp h'))

theorem le_total (a b : Path) : le a b ∨ le b a := by
  unfold le notAfter
  rw [Bool.not_eq_true', decide_eq_false_iff_not, Bool.not_eq_true', decide_eq_false_iff_not]
  exact (List.le_total _ _).imp List.not_lt.mpr List.not_lt.mpr

theorem pairwise_sort (paths : List Path) : (sort paths).Pairwise fun a b => le a b := by
  apply List.pairwise_mergeSort
  · intro a b c
    exact le_trans
  · intro a b
    exact Bool.or_eq_true_iff.mpr (le_total a b)

end Path

namespace FilePattern
set_option autoImplicit false

open DocTools.Path (Direct LeadsTo PointsAt resolve)

/-! ## Directories that are there are walked to -/

theorem exists_first_piece {dir : Path} (hne : dir ≠ []) (hrelative : dir.isAbsolute = false) :
    ∃ first pieces, Text.splitOn '/' (trimEnd dir) = first :: pieces ∧ first ≠ [] := by
  obtain ⟨first, pieces, hpieces⟩ := Text.exists_splitOn_eq_cons '/' (trimEnd dir)
  refine ⟨first, pieces, hpieces, ?_⟩
  have hbegins : trimEnd dir <+: dir := List.rdropWhile_prefix _ _
  have htrim : trimEnd dir ≠ [] := by
    intro hnil
    obtain ⟨c, rest, rfl⟩ := List.exists_cons_of_ne_nil hne
    have hc := List.rdropWhile_eq_nil_iff.mp hnil c List.mem_cons_self
    rw [eq_of_beq hc] at hrelative
    cases hrelative
  have habs : Path.isAbsolute (trimEnd dir) = false := by
    rw [Path.isAbsolute, Path.head?_eq_of_begins hbegins htrim]
    exact hrelative
  rw [Path.isAbsolute_eq_false_iff htrim, hpieces] at habs
  rintro rfl
  exact habs rfl

theorem not_losesWay_of_leadsTo {dir : Path} {base : Location} (h : LeadsTo dir base) (hne : dir ≠ []) :
    ¬LosesWay dir := by
  obtain ⟨first, pieces, hpieces, hfirst⟩ := exists_first_piece hne h.relative
  have hhere : first ≠ ['.'] := by
    have hhead := h.head_ne
    rw [names_eq_filter_trimEnd, hpieces, List.filter_cons_of_pos (by simpa using hfirst)] at hhead
    exact fun hc => hhead (congrArg some hc)
  rw [LosesWay, hpieces, isLost_cons_iff hhere]
  exact hfirst

/-- The walk along the names of a directory that is there comes to an end. -/
theorem exists_walk_of_leadsTo {tree : FileTree} {dir : Path} {base : Location} (h : LeadsTo dir base)
    (hne : dir ≠ []) (hfind : tree.find? base = some .directory) :
    ∃ spot, walk tree .top (Text.splitOn '/' (trimEnd dir)) = some spot := by
  have hbase : tree.find? (tree.root.1 ++ base) = some .directory := hfind
  obtain ⟨goal, hgoal, -⟩ :=
    FileTree.enterAll_directory (FileTree.spells_of_filterMap h.filterMap_names) hbase
  rw [names_eq_filter_trimEnd] at hgoal
  obtain ⟨spot, hspot, -⟩ :=
    sound_top.exists_walk rfl (fun _ => not_losesWay_of_leadsTo h hne) rfl hgoal
  exact ⟨spot, hspot⟩

/-! ## The list of files -/

/-- A location of a file with an extension, below a directory. -/
def HasBelow (tree : FileTree) (dir : Path) (extension : Text) (location : Location) : Prop :=
  ∃ base below name content, dir.place? = some base ∧ location = base ++ (below ++ [name]) ∧
    ('.' :: extension) <:+ name ∧ InReach dir (below ++ [name]) ∧
      tree.find? location = some (.file content)

/-- A path of a file below a directory, spelled as the directory is. -/
structure Listed (tree : FileTree) (dir : Path) (below : Location) (path : Path) : Prop where
  relative : dir.isAbsolute = false
  ne_nil : below ≠ []
  names : ∀ name ∈ below, IsEntryName name
  points : PointsAt path (resolve dir ++ below)
  components_eq : path.components = dir.components ++ below.map .name
  stands : ∃ content, tree.find? (resolve dir ++ below) = some (.file content)

/-- The files with an extension below a directory, in order and each once. -/
structure Lists (tree : FileTree) (dir : Path) (extension : Text) (paths : List Path) : Prop where
  sorted : paths.Pairwise fun a b => Path.le a b
  once : (paths.map resolve).Nodup
  mem : ∀ location, location ∈ paths.map resolve ↔ HasBelow tree dir extension location
  listed : ∀ path ∈ paths, ∃ below, Listed tree dir below path

/-- The files at the wanted places below a directory, in order and each once. -/
structure ListsWhere (tree : FileTree) (dir : Path) (wanted : Location → Prop) (paths : List Path) :
    Prop where
  sorted : paths.Pairwise fun a b => Path.le a b
  once : (paths.map resolve).Nodup
  mem : ∀ location, location ∈ paths.map resolve ↔ ∃ below content,
    location = resolve dir ++ below ∧ wanted below ∧ InReach dir below ∧
      tree.find? location = some (.file content)
  listed : ∀ path ∈ paths, ∃ below, Listed tree dir below path

theorem eq_resolve_of_place? {dir : Path} {base : Location} (h : dir.place? = some base) :
    dir.isAbsolute = false ∧ base = resolve dir := by
  unfold Path.place? at h
  split at h
  · cases h
  · rename_i habs
    exact ⟨Bool.eq_false_iff.mpr habs, (Option.some.inj h).symm⟩

theorem ListsWhere.lists {tree : FileTree} {dir : Path} {extension : Text} {paths : List Path}
    (h : ListsWhere tree dir (HasExtension extension) paths) (hrelative : dir.isAbsolute = false) :
    Lists tree dir extension paths where
  sorted := h.sorted
  once := h.once
  mem location := by
    have hplace := Path.place?_of_relative hrelative
    rw [h.mem]
    constructor
    · rintro ⟨_, content, hat, ⟨below, name, rfl, hsuffix⟩, hreach, hfind⟩
      exact ⟨resolve dir, below, name, content, hplace, hat, hsuffix, hreach, hfind⟩
    · rintro ⟨base, below, name, content, hbase, hat, hsuffix, hreach, hfind⟩
      obtain ⟨-, rfl⟩ := eq_resolve_of_place? hbase
      exact ⟨below ++ [name], content, hat, ⟨below, name, rfl, hsuffix⟩, hreach, hfind⟩
  listed := h.listed

theorem HasBelow.hasExtension {tree : FileTree} {dir : Path} {extension : Text} {location : Location}
    (h : HasBelow tree dir extension location) : HasExtension extension location := by
  obtain ⟨base, below, name, _, -, rfl, hname, -⟩ := h
  exact HasExtension.append ⟨below, name, rfl, hname⟩ base

/-- Files with two extensions, of which neither ends like the other, are listed apart. -/
theorem Lists.nodup_append {tree : FileTree} {dir : Path} {extension other : Text}
    {paths others : List Path} (h : Lists tree dir extension paths) (h' : Lists tree dir other others)
    (hends : ¬('.' :: extension) <:+ ('.' :: other)) (hends' : ¬('.' :: other) <:+ ('.' :: extension)) :
    ((paths ++ others).map resolve).Nodup := by
  rw [List.map_append]
  refine h.once.append h'.once fun location hmem hmem' => ?_
  have hone := ((h.mem location).mp hmem).hasExtension
  have htwo := ((h'.mem location).mp hmem').hasExtension
  exact (hone.suffix_or_suffix htwo).elim hends hends'

/-! ## Trees that are alike below the directory -/

/-- Two trees have the same entries in a directory. -/
def SameBelow (dir : Path) (before after : FileTree) : Prop :=
  ∀ base, dir.place? = some base → ∀ below, after.find? (base ++ below) = before.find? (base ++ below)

section
variable {before after : FileTree} {dir : Path}

theorem SameBelow.hasBelow_iff (h : SameBelow dir before after) (extension : Text) (location : Location) :
    HasBelow after dir extension location ↔ HasBelow before dir extension location := by
  constructor
  · rintro ⟨base, below, name, content, hbase, rfl, hsuffix, hreach, hfind⟩
    rw [h base hbase] at hfind
    exact ⟨base, below, name, content, hbase, rfl, hsuffix, hreach, hfind⟩
  · rintro ⟨base, below, name, content, hbase, rfl, hsuffix, hreach, hfind⟩
    rw [← h base hbase] at hfind
    exact ⟨base, below, name, content, hbase, rfl, hsuffix, hreach, hfind⟩

theorem Listed.place?_eq {tree : FileTree} {below : Location} {path : Path}
    (h : Listed tree dir below path) : dir.place? = some (resolve dir) :=
  Path.place?_of_relative h.relative

/-- What is listed in a directory depends on nothing outside it. -/
theorem Lists.of_sameBelow {extension : Text} {paths : List Path} (hsame : SameBelow dir before after)
    (h : Lists after dir extension paths) : Lists before dir extension paths where
  sorted := h.sorted
  once := h.once
  mem location := (h.mem location).trans (hsame.hasBelow_iff extension location)
  listed path hpath := by
    obtain ⟨below, hlisted⟩ := h.listed path hpath
    have hstands := hlisted.stands
    rw [hsame _ hlisted.place?_eq] at hstands
    exact ⟨below, { hlisted with stands := hstands }⟩

end

/-! ## The list below a directory that was walked to -/

theorem Walked.resolve_eq {dir : Path} {names : List Text} {spot : Spot} (h : Walked names spot)
    (hcomponents : dir.components = spot.path.components) : resolve dir = spot.location := by
  rw [h.location_eq, resolve, resolve, hcomponents]

theorem Walked.isAbsolute_eq_false {dir : Path} {names : List Text} {spot : Spot}
    (h : Walked names spot) (hcomponents : dir.components = spot.path.components) :
    dir.isAbsolute = false := by
  rw [Bool.eq_false_iff, Ne, ← Path.root_mem_components_iff, hcomponents,
    Path.root_mem_components_iff, h.relative]
  exact Bool.false_ne_true

/-- Below a directory that was walked to, a path goes on from where the directory leads. -/
theorem Walked.listed {tree : FileTree} {dir : Path} {names : List Text} {spot : Spot}
    (h : Walked names spot) (hdir : Direct dir) (hcomponents : dir.components = spot.path.components)
    {below : Location} (hne : below ≠ []) {content : Content}
    (hfind : tree.find? (spot.location ++ below) = some (.file content)) :
    Listed tree dir below (spot.down (spot.location ++ below, .file content)).path := by
  have hrelative := h.isAbsolute_eq_false hcomponents
  have hresolve := h.resolve_eq hcomponents
  have hnames : ∀ name ∈ below, IsEntryName name := fun name hname =>
    FileTree.isEntryName_of_find? (by rw [hfind]; rfl) name (List.mem_append_right _ hname)
  have hpath : (spot.down (spot.location ++ below, .file content)).path = spot.pathDown below := by
    rw [Spot.down, List.drop_left]
  have hcont := h.continues_pathDown hne hnames
  have hdown := h.components_pathDown hne hnames
  rw [← hcomponents] at hdown
  rw [hpath]
  refine ⟨hrelative, hne, hnames, ⟨⟨?_, ?_⟩, ?_⟩, hdown, content, by rw [hresolve, hfind]⟩
  · rw [hcont.isAbsolute_eq, h.relative]
  · rw [hdown, (hdir.leadsTo hrelative).components_eq, List.map_append]
  · rw [hcont.names_eq, List.getLast?_append_of_ne_nil _ hne, List.getLast?_append_of_ne_nil _ hne]

/-- A directory that can not be walked to has nothing below it. -/
theorem lists_of_no_walk {tree : FileTree} {dir : Path} (hdir : Direct dir) (hne : dir ≠ [])
    (extension : Text) (hwalk : walk tree .top (Text.splitOn '/' (trimEnd dir)) = none) :
    Lists tree dir extension [] := by
  refine ⟨.nil, .nil, fun location => ⟨fun h => (nomatch h), ?_⟩, fun _ h => nomatch h⟩
  rintro ⟨base, below, name, content, hbase, rfl, -, -, hfind⟩
  obtain ⟨hrelative, rfl⟩ := eq_resolve_of_place? hbase
  have hd := FileTree.find?_above (List.concat_ne_nil name below) (by rw [hfind]; rfl)
  obtain ⟨spot, hspot⟩ := exists_walk_of_leadsTo (hdir.leadsTo hrelative) hne hd
  rw [hwalk] at hspot
  cases hspot

/-- The entries that are kept are those of the wanted places that are not out of reach. -/
theorem Finds.mem_shortOnes_iff {tree : FileTree} {dir : Path} {segments : List Segment}
    {wanted : Location → Prop} {spot : Spot} {found : List (Location × Entry)}
    (h : Finds tree segments wanted spot found) (hnil : ¬wanted [])
    (hwalk : walk tree .top (Text.splitOn '/' (trimEnd dir)) = some spot) (e : Location × Entry) :
    e ∈ shortOnes spot found ↔ ∃ below content, e = (spot.location ++ below, .file content) ∧
      wanted below ∧ InReach dir below ∧ tree.find? e.1 = some e.2 := by
  have hne {below : Location} (hwanted : wanted below) : below ≠ [] := by
    rintro rfl
    exact hnil hwanted
  rw [shortOnes, List.mem_filter, h.mem]
  constructor
  · rintro ⟨⟨below, content, rfl, hwanted, hfind⟩, hlimit⟩
    have hreach := (inReach_iff_of_walk hwalk (hne hwanted) hfind).mpr hlimit
    exact ⟨below, content, rfl, hwanted, hreach, hfind⟩
  · rintro ⟨below, content, rfl, hwanted, hreach, hfind⟩
    exact ⟨⟨below, content, rfl, hwanted, hfind⟩,
      (inReach_iff_of_walk hwalk (hne hwanted) hfind).mp hreach⟩

/-- What is found below a directory that was walked to is listed at the wanted places. -/
theorem Walked.listsWhere {tree : FileTree} {dir : Path} {names : List Text} {spot : Spot}
    (h : Walked names spot) (hdir : Direct dir) (hcomponents : dir.components = spot.path.components)
    (hwalk : FilePattern.walk tree .top (Text.splitOn '/' (trimEnd dir)) = some spot)
    {segments : List Segment} {wanted : Location → Prop} {found : List (Location × Entry)}
    (hfinds : Finds tree segments wanted spot found) (hnil : ¬wanted []) :
    ListsWhere tree dir wanted (Path.sort ((shortOnes spot found).map fun e => (spot.down e).path)) := by
  have hresolve := h.resolve_eq hcomponents
  have hshort := hfinds.mem_shortOnes_iff hnil hwalk
  have hlisted : ∀ e ∈ shortOnes spot found,
      ∃ below, e.1 = spot.location ++ below ∧ Listed tree dir below (spot.down e).path := by
    intro e he
    obtain ⟨below, content, rfl, hwanted, -, hfind⟩ := (hshort e).mp he
    have hne : below ≠ [] := by
      rintro rfl
      exact hnil hwanted
    exact ⟨below, rfl, h.listed hdir hcomponents hne hfind⟩
  have hlocations : ((Path.sort ((shortOnes spot found).map fun e => (spot.down e).path)).map resolve).Perm
      ((shortOnes spot found).map Prod.fst) := by
    refine ((Path.perm_sort _).map resolve).trans ?_
    rw [List.map_map]
    refine List.Perm.of_eq (List.map_congr_left fun e he => ?_)
    obtain ⟨below, hat, hpath⟩ := hlisted e he
    rw [hat, ← hresolve]
    exact hpath.points.resolve_eq
  constructor
  case sorted => exact Path.pairwise_sort _
  case once =>
    exact hlocations.nodup_iff.mpr (hfinds.nodup.sublist (List.filter_sublist.map Prod.fst))
  case mem =>
    intro location
    rw [hlocations.mem_iff, List.mem_map, hresolve]
    constructor
    · rintro ⟨e, he, rfl⟩
      obtain ⟨below, content, rfl, hwanted, hreach, hfind⟩ := (hshort e).mp he
      exact ⟨below, content, rfl, hwanted, hreach, hfind⟩
    · rintro ⟨below, content, rfl, hwanted, hreach, hfind⟩
      exact ⟨_, (hshort _).mpr ⟨below, content, rfl, hwanted, hreach, hfind⟩, rfl⟩
  case listed =>
    intro path hpath
    obtain ⟨e, he, rfl⟩ := List.mem_map.mp (mem_sort.mp hpath)
    obtain ⟨below, -, hlisted⟩ := hlisted e he
    exact ⟨below, hlisted⟩

/-- A search for an extension below a directory lists the files that have it. -/
theorem lists_files (tree : FileTree) {dir : Path} (hdir : Direct dir) (hne : dir ≠ [])
    (extension : Text) :
    Lists tree dir extension (files tree ⟨segmentsBelow dir extension, false⟩) := by
  cases hwalk : walk tree .top (Text.splitOn '/' (trimEnd dir)) with
  | none =>
    rw [segmentsBelow, files_of_no_walk _ hwalk]
    exact lists_of_no_walk hdir hne extension hwalk
  | some spot =>
    have hfinds := finds_deep tree extension spot
    rw [segmentsBelow, files_of_walk hfinds hwalk]
    cases reached_of_walk hwalk with
    | top hcomponents _ => exact absurd (hcomponents ▸ List.mem_cons_self) hdir.here_not_mem
    | plain hwalked hcomponents =>
      exact (hwalked.listsWhere hdir hcomponents hwalk hfinds fun h => h.ne_nil rfl).lists
        (hwalked.isAbsolute_eq_false hcomponents)
    | dotted _ hcomponents => exact absurd (hcomponents ▸ List.mem_cons_self) hdir.here_not_mem

end FilePattern
end DocTools
