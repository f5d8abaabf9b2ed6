import DocTools.Proofs.FileTree.Reading
import DocTools.Proofs.Path.Leads

/-! # What making directories and saving need

Where a path leads straight down, what comes of it is settled by the entries along its location: the
names on the way have to be directories or be missing, and are made then. The main statements:
`find?_of_save`, by which a save changes no entry but those, and `save_eq_none_iff`, which says when
it succeeds. -/
namespace DocTools.FileTree
set_option autoImplicit false

open DocTools.Path (Component LeadsTo PointsAt resolve ancestorsUpTo)

variable {tree before middle after : FileTree} {path : Path} {front location : Location} {last : Text}

/-! ## Entries above an entry -/

theorem find?_of_child {name : Text} (h : (tree.find? (location ++ [name])).isSome) :
    tree.find? location = some .directory := by
  rw [find?, if_neg (List.concat_ne_nil name location)] at h
  rcases tree.parent_directory location name h with rfl | hd
  · rfl
  · rw [find?]
    split
    · rfl
    · exact hd

/-- What lies above an entry is a directory. -/
theorem find?_above {more : List Text} (hne : more ≠ []) (h : (tree.find? (location ++ more)).isSome) :
    tree.find? location = some .directory := by
  induction more using List.reverseRecOn with
  | nil => exact absurd rfl hne
  | append_singleton more name ih =>
    rw [← List.append_assoc] at h
    have hparent := find?_of_child h
    by_cases hmore : more = []
    · rwa [hmore, List.append_nil] at hparent
    · exact ih hmore (by rw [hparent]; rfl)

theorem find?_first {name : Text} {below : List Text}
    (h : tree.find? (location ++ name :: below) = some .directory) :
    tree.find? (location ++ [name]) = some .directory := by
  rw [← List.singleton_append, ← List.append_assoc] at h
  by_cases hbelow : below = []
  · rwa [hbelow, List.append_nil] at h
  · exact find?_above hbelow (by rw [h]; rfl)

theorem not_concat_prefix (front : Location) (last : Text) : ¬front ++ [last] <+: front := by
  intro hc
  have hlength := hc.length_le
  rw [List.length_append, List.length_singleton] at hlength
  omega

/-! ## Routes -/

theorem exists_route_iff : (∃ r, route path = .ok r) ↔
    '\x00' ∉ path ∧ Utf8.size path ≤ longestPath ∧ path.isAbsolute = false ∧ path.names ≠ [] := by
  constructor
  · rintro ⟨r, h⟩
    obtain ⟨hnul, hsize, habs, hnames, -⟩ := route_cases h
    exact ⟨hnul, hsize, habs, hnames ▸ List.concat_ne_nil r.last r.way⟩
  · rintro ⟨hnul, hsize, habs, hne⟩
    unfold route
    rw [dif_neg hnul, dif_neg (Nat.not_lt_of_le hsize), if_neg (by rw [habs]; exact Bool.false_ne_true)]
    split
    · rename_i hnil
      exact absurd (List.reverse_eq_nil_iff.mp hnil) hne
    · exact ⟨_, rfl⟩

theorem route_of_isAbsolute (h : path.isAbsolute) (r : Route) : route path ≠ .ok r := by
  intro hr
  obtain ⟨-, -, habs, -⟩ := exists_route_iff.mp ⟨r, hr⟩
  rw [h] at habs
  cases habs

theorem exists_route_of_prefix {parent : Path} (h : PointsAt parent (front ++ [last]))
    (hfront : parent <+: path) (hpath : ∃ r, route path = .ok r) : ∃ r, route parent = .ok r := by
  obtain ⟨hnul, hsize, -, -⟩ := exists_route_iff.mp hpath
  obtain ⟨rest, rfl⟩ := hfront
  rw [Utf8.size_append] at hsize
  rw [exists_route_iff]
  exact ⟨fun hmem => hnul (List.mem_append_left _ hmem), Nat.le_trans (Nat.le_add_right _ _) hsize,
    h.relative, Path.names_ne_nil h.ne_nil h.relative⟩

theorem ofName?_of_mem (h : LeadsTo path location) {name : Text} (hname : name ∈ location) :
    Component.ofName? name = some (.name name) := by
  obtain ⟨hsteps, hup⟩ := h.filter_splitOn
  rw [← hsteps] at hname
  have hidle : ¬Path.isIdle name := by simpa using (List.mem_filter.mp hname).2
  have hhere : name ≠ ['.'] := by
    rintro rfl
    exact hidle rfl
  have hdots : name ≠ ['.', '.'] := by
    rintro rfl
    exact hup (hsteps ▸ hname)
  rw [Component.ofName?, if_neg hhere, if_neg hdots]

theorem ofName?_last (h : PointsAt path (front ++ [last])) :
    Component.ofName? last = some (.name last) :=
  ofName?_of_mem h.toLeadsTo (List.mem_append_right front (List.mem_singleton_self last))

/-- The names on a route are those of the location above, and the last name. -/
theorem names_of_pointsAt (h : PointsAt path (front ++ [last])) {r : Route} (hr : route path = .ok r) :
    r.last = last ∧ r.way.filterMap Component.ofName? = front.map Component.name := by
  obtain ⟨-, hnames⟩ := names_of_route hr
  have hlast := h.last_eq
  rw [hnames, List.getLast?_concat, List.getLast?_concat] at hlast
  have hlast := Option.some.inj hlast
  have hall := h.filterMap_names
  rw [hnames, List.filterMap_append, hlast, List.filterMap_cons_some (ofName?_last h),
    List.map_append] at hall
  exact ⟨hlast, (List.append_inj' hall rfl).1⟩

theorem last_not_dots (h : PointsAt path (front ++ [last])) {r : Route} (hr : route path = .ok r) :
    ¬(r.last = ['.'] ∨ r.last = ['.', '.']) := by
  have hname := ofName?_last h
  rw [(names_of_pointsAt h hr).1]
  rintro (rfl | rfl)
  · cases hname
  · cases hname

/-! ## Walking along names -/

/-- Names as they are written, and those that lead somewhere. -/
inductive Spells : List Text → Location → Prop
  | nil : Spells [] []
  | here {names : List Text} {below : Location} (rest : Spells names below) :
      Spells (['.'] :: names) below
  | name {name : Text} {names : List Text} {below : Location}
      (proper : Component.ofName? name = some (.name name)) (rest : Spells names below) :
      Spells (name :: names) (name :: below)

theorem spells_of_filterMap {names : List Text} {below : Location}
    (h : names.filterMap Component.ofName? = below.map Component.name) : Spells names below := by
  induction names generalizing below with
  | nil =>
    obtain rfl := List.map_eq_nil_iff.mp h.symm
    exact .nil
  | cons name names ih =>
    by_cases hhere : name = ['.']
    · subst hhere
      exact .here (ih h)
    · by_cases hup : name = ['.', '.']
      · subst hup
        rw [List.filterMap_cons_some (show Component.ofName? ['.', '.'] = some .up from rfl)] at h
        cases below with
        | nil => cases h
        | cons first below => cases (List.cons.inj h).1
      · have hname : Component.ofName? name = some (.name name) := by
          rw [Component.ofName?, if_neg hhere, if_neg hup]
        rw [List.filterMap_cons_some hname] at h
        cases below with
        | nil => cases h
        | cons first below =>
          obtain ⟨hfirst, hrest⟩ := List.cons.inj h
          obtain rfl := Component.name.inj hfirst
          exact .name hname (ih hrest)

theorem step_name (dir : tree.Directory) {name : Text} (h : Component.ofName? name = some (.name name))
    (hsize : Utf8.size name ≤ longestName) : tree.step dir name = .ok (dir.1 ++ [name]) := by
  have hhere : name ≠ ['.'] := by
    rintro rfl
    cases h
  have hup : name ≠ ['.', '.'] := by
    rintro rfl
    cases h
  rw [step, if_neg hhere, if_neg hup, if_neg (Nat.not_lt_of_le hsize)]

theorem enterAll_cons_of_step {dir next : tree.Directory} {name : Text} (names : List Text)
    (h : tree.step dir name = .ok next.1) :
    tree.enterAll dir (name :: names) = tree.enterAll next names := by
  rw [enterAll, enter_eq_ok_iff.mpr h]
  rfl

theorem enter_missing {dir : tree.Directory} {name : Text} {place : Location}
    (hstep : tree.step dir name = .ok place) (h : tree.find? place = none) :
    tree.enter dir name = .error .notFound := by
  unfold enter
  rw [hstep]
  dsimp only [bind, Except.bind]
  split
  · rename_i hd
    rw [h] at hd
    cases hd
  · rename_i hf
    rw [h] at hf
    cases hf
  · rfl

theorem enterAll_directory {names : List Text} {below : Location} (h : Spells names below)
    {dir : tree.Directory} (hd : tree.find? (dir.1 ++ below) = some .directory) :
    ∃ goal, tree.enterAll dir names = .ok goal ∧ goal.1 = dir.1 ++ below := by
  induction h generalizing dir with
  | nil => exact ⟨dir, rfl, (List.append_nil _).symm⟩
  | here rest ih =>
    obtain ⟨goal, hgoal, hat⟩ := ih hd
    exact ⟨goal, by rw [enterAll_cons_of_step _ rfl, hgoal], hat⟩
  | @name name names below proper rest ih =>
    have hfirst := find?_first hd
    have hsize := (isEntryName_of_find? (by rw [hfirst]; rfl) name (by simp)).size_le
    have hnext : tree.find? (dir.1 ++ [name] ++ below) = some .directory := by
      rw [List.append_assoc]
      exact hd
    let next : tree.Directory := ⟨dir.1 ++ [name], hfirst⟩
    have hstep : tree.step dir name = .ok next.1 := step_name dir proper hsize
    obtain ⟨goal, hgoal, hat⟩ := @ih next hnext
    refine ⟨goal, ?_, ?_⟩
    · rw [enterAll_cons_of_step _ hstep, hgoal]
    · rw [hat, List.append_assoc]
      rfl

/-- Where no file is in the way, a directory that is not there is not found. -/
theorem enterAll_missing {names : List Text} {below : Location} (h : Spells names below)
    {dir : tree.Directory} (hsize : ∀ name ∈ below, Utf8.size name ≤ longestName)
    (hclear : ∀ more, more <+: below → ∀ content, tree.find? (dir.1 ++ more) ≠ some (.file content))
    (hnot : tree.find? (dir.1 ++ below) ≠ some .directory) :
    tree.enterAll dir names = .error .notFound := by
  induction h generalizing dir with
  | nil =>
    rw [List.append_nil] at hnot
    exact absurd dir.2 hnot
  | here rest ih => rw [enterAll_cons_of_step _ rfl, ih hsize hclear hnot]
  | @name name names below proper rest ih =>
    have hstep := step_name dir proper (hsize name List.mem_cons_self)
    cases hfirst : tree.find? (dir.1 ++ [name]) with
    | none =>
      rw [enterAll, enter_missing hstep hfirst]
      rfl
    | some entry =>
      cases entry with
      | file content =>
        exact absurd hfirst (hclear [name] (List.prefix_append [name] below) content)
      | directory =>
        let next : tree.Directory := ⟨dir.1 ++ [name], hfirst⟩
        rw [enterAll_cons_of_step names (show tree.step dir name = .ok next.1 from hstep)]
        refine ih (fun n hn => hsize n (List.mem_cons_of_mem _ hn)) ?_ ?_
        · intro more hmore content
          rw [List.append_assoc]
          exact hclear ([name] ++ more) ((List.prefix_append_right_inj [name]).mpr hmore) content
        · rw [List.append_assoc]
          exact hnot

/-! ## One directory -/

/-- No file is in the way of a location, and every name on the way is short enough. -/
structure Open (tree : FileTree) (location : Location) : Prop where
  sizes : ∀ name ∈ location, Utf8.size name ≤ longestName
  clear : ∀ above, above <+: location → ∀ content, tree.find? above ≠ some (.file content)

theorem Open.above (h : Open tree (front ++ [last])) : Open tree front where
  sizes name hname := h.sizes name (List.mem_append_left _ hname)
  clear above habove := h.clear above (habove.trans (List.prefix_append _ _))

section
variable (h : PointsAt path (front ++ [last])) {r : Route} (hr : route path = .ok r)
include h hr

theorem enterAll_front (hd : tree.find? front = some .directory) :
    ∃ dir, tree.enterAll tree.root r.way = .ok dir ∧ dir.1 = front := by
  obtain ⟨-, hway⟩ := names_of_pointsAt h hr
  exact enterAll_directory (spells_of_filterMap hway) hd

theorem makeDirectory_in (hd : tree.find? front = some .directory)
    (hsize : Utf8.size last ≤ longestName) :
    (tree.find? (front ++ [last]) = none ∧ ∃ made, tree.makeDirectory path = .ok made) ∨
      (tree.find? (front ++ [last])).isSome ∧ tree.makeDirectory path = .error .alreadyExists := by
  obtain ⟨hlast, -⟩ := names_of_pointsAt h hr
  obtain ⟨dir, hdir, hat⟩ := enterAll_front h hr hd
  unfold makeDirectory
  rw [hr]
  simp only [bind, Except.bind, attach_of_ok hdir, dif_neg (last_not_dots h hr)]
  rw [dif_neg (by rw [hlast]; exact Nat.not_lt_of_le hsize)]
  simp only [hat, hlast]
  cases hfind : tree.find? (front ++ [last]) with
  | none => exact .inl ⟨rfl, _, rfl⟩
  | some entry => exact .inr ⟨rfl, rfl⟩

theorem makeDirectory_missing (hopen : Open tree front) (hd : tree.find? front ≠ some .directory) :
    tree.makeDirectory path = .error .notFound := by
  obtain ⟨-, hway⟩ := names_of_pointsAt h hr
  have hmissing : tree.enterAll tree.root r.way = .error .notFound :=
    enterAll_missing (spells_of_filterMap hway) hopen.sizes hopen.clear hd
  unfold makeDirectory
  rw [hr]
  simp only [bind, Except.bind, attach_of_error hmissing]

/-- A path comes to the entry that it points at. -/
theorem exists_step_of_find? {entry : Entry} (hfind : tree.find? (front ++ [last]) = some entry) :
    ∃ dir, tree.enterAll tree.root r.way = .ok dir ∧ tree.step dir r.last = .ok (front ++ [last]) := by
  obtain ⟨hlast, -⟩ := names_of_pointsAt h hr
  have hfront := find?_above (List.cons_ne_nil last []) (by rw [hfind]; rfl)
  obtain ⟨dir, hdir, hat⟩ := enterAll_front h hr hfront
  have hsize := (isEntryName_of_find? (by rw [hfind]; rfl) last (by simp)).size_le
  refine ⟨dir, hdir, ?_⟩
  rw [hlast, step_name dir (ofName?_last h) hsize, hat]

theorem isDirectory_of_find? (hd : tree.find? (front ++ [last]) = some .directory) :
    tree.isDirectory path := by
  obtain ⟨dir, hdir, hstep⟩ := exists_step_of_find? h hr hd
  unfold isDirectory locate
  rw [hr]
  simp only [bind, Except.bind, hdir, hstep, hd]
  rfl

end

theorem find?_of_isDirectory (h : tree.isDirectory path) :
    tree.find? (resolve path) = some .directory := by
  unfold isDirectory at h
  split at h
  · rename_i place entry hlocate
    unfold locate at hlocate
    obtain ⟨r, hr, hlocate⟩ := bind_eq_ok.mp hlocate
    obtain ⟨dir, hdir, hlocate⟩ := bind_eq_ok.mp hlocate
    obtain ⟨goal, hstep, hlocate⟩ := bind_eq_ok.mp hlocate
    rw [location_eq_resolve hr hdir hstep] at hlocate
    split at hlocate
    · cases hlocate
    · split at hlocate
      · cases hlocate
      · cases hlocate
        cases h
    · assumption
  · cases h

theorem exists_route_of_isDirectory (h : tree.isDirectory path) : ∃ r, route path = .ok r := by
  unfold isDirectory at h
  split at h
  · rename_i hlocate
    obtain ⟨r, hr, -⟩ := bind_eq_ok.mp hlocate
    exact ⟨r, hr⟩
  · cases h

theorem isAbsolute_of_isDirectory (h : tree.isDirectory path) : path.isAbsolute = false := by
  obtain ⟨r, hr⟩ := exists_route_of_isDirectory h
  exact Bool.eq_false_iff.mpr fun habs => route_of_isAbsolute habs r hr

theorem ne_nil_of_isDirectory (h : tree.isDirectory path) : path ≠ [] := by
  obtain ⟨r, hr⟩ := exists_route_of_isDirectory h
  rintro rfl
  cases hr

/-! ## Directories along a location -/

/-- Directories were made along a location, where there was nothing. -/
def Made (goal : Location) (before after : FileTree) : Prop :=
  ∀ place, after.find? place = before.find? place ∨
    place <+: goal ∧ before.find? place = none ∧ after.find? place = some .directory

theorem Made.refl (goal : Location) (tree : FileTree) : Made goal tree tree := fun _ => .inl rfl

theorem Made.mono {goal further : Location} (h : Made goal before after) (hgoal : goal <+: further) :
    Made further before after :=
  fun place => (h place).imp_right fun ⟨hplace, hmade⟩ => ⟨hplace.trans hgoal, hmade⟩

theorem Made.trans {goal : Location} (h : Made goal before middle) (h' : Made goal middle after) :
    Made goal before after := by
  intro place
  rcases h' place with hsame | ⟨hplace, hnone, hmade⟩
  · rw [hsame]
    exact h place
  · rcases h place with hsame | ⟨-, -, hdir⟩
    · exact .inr ⟨hplace, hsame ▸ hnone, hmade⟩
    · rw [hdir] at hnone
      cases hnone

/-- Directories that are made are not in the way of anything. -/
theorem Open.made {goal : Location} (h : Open before location) (hmade : Made goal before after) :
    Open after location where
  sizes := h.sizes
  clear above habove content hfile := by
    rcases hmade above with hsame | ⟨-, -, hd⟩
    · exact h.clear above habove content (hsame ▸ hfile)
    · rw [hd] at hfile
      cases hfile

/-- A directory is made where there was nothing. -/
theorem find?_of_makeDirectory {made : FileTree} (h : tree.makeDirectory path = .ok made) :
    tree.find? (resolve path) = none ∧ ∀ place, made.find? place =
      if place = resolve path then some .directory else tree.find? place := by
  obtain ⟨r, dir, hr, hdir, hname, hnone, hfind⟩ := exists_of_makeDirectory_eq_ok h
  have hstep := step_name dir (Path.ofName?_of_isEntryName hname) hname.size_le
  rw [location_eq_resolve hr hdir hstep] at hnone hfind
  exact ⟨hnone, hfind⟩

theorem made_makeDirectory {made : FileTree} (h : tree.makeDirectory path = .ok made) :
    Made (resolve path) tree made := by
  obtain ⟨hnone, hfind⟩ := find?_of_makeDirectory h
  intro place
  rw [hfind]
  by_cases hplace : place = resolve path
  · rw [if_pos hplace, hplace]
    exact .inr ⟨List.prefix_rfl, hnone, rfl⟩
  · exact .inl (if_neg hplace)

/-- One directory made, or found to be there. -/
def makeOne (tree : FileTree) (path : Path) : FileTree × Option IoError :=
  match tree.makeDirectory path with
  | .ok made => (made, none)
  | .error e => (tree, if tree.isDirectory path then none else some e)

theorem makeChain_nil (parents : List Path) : tree.makeChain ([] :: parents) = (tree, none) := by
  rw [makeChain, if_pos rfl]

theorem makeChain_of_ne_notFound (hne : path ≠ []) (h : tree.makeDirectory path ≠ .error .notFound)
    (parents : List Path) : tree.makeChain (path :: parents) = tree.makeOne path := by
  rw [makeChain, if_neg hne, makeOne]
  split
  · rename_i made hmade
    rw [hmade]
  · rename_i hnot
    exact absurd hnot h
  · rename_i e _ he
    rw [he]

theorem makeChain_of_notFound (hne : path ≠ []) (h : tree.makeDirectory path = .error .notFound)
    (parents : List Path) : tree.makeChain (path :: parents) =
      if (tree.makeChain parents).2.isSome then tree.makeChain parents
      else (tree.makeChain parents).1.makeOne path := by
  rw [makeChain, if_neg hne, h]
  dsimp only
  cases tree.makeChain parents with
  | mk grown failure => cases failure <;> rfl

theorem made_makeOne (tree : FileTree) (path : Path) : Made (resolve path) tree (tree.makeOne path).1 := by
  unfold makeOne
  split
  · rename_i made hmade
    exact made_makeDirectory hmade
  · exact .refl _ tree

theorem find?_of_makeOne (h : (tree.makeOne path).2 = none) :
    (tree.makeOne path).1.find? (resolve path) = some .directory := by
  unfold makeOne at h ⊢
  cases hmade : tree.makeDirectory path with
  | ok made => exact ((find?_of_makeDirectory hmade).2 _).trans (if_pos rfl)
  | error e =>
    simp only [hmade] at h
    split at h
    · rename_i hd
      exact find?_of_isDirectory hd
    · cases h

/-- Where there is a directory, and no file in its place, one more is made or is there. -/
theorem makeOne_in (h : PointsAt path (front ++ [last])) {r : Route} (hr : route path = .ok r)
    (hopen : Open tree (front ++ [last])) (hd : tree.find? front = some .directory) :
    (tree.makeOne path).2 = none := by
  unfold makeOne
  have hsize := hopen.sizes last (List.mem_append_right front (List.mem_singleton_self last))
  rcases makeDirectory_in h hr hd hsize with ⟨-, made, hmade⟩ | ⟨hsome, hpresent⟩
  · rw [hmade]
  · obtain ⟨entry, hentry⟩ := Option.isSome_iff_exists.mp hsome
    cases entry with
    | file content => exact absurd hentry (hopen.clear _ List.prefix_rfl content)
    | directory =>
      rw [hpresent]
      exact if_pos (isDirectory_of_find? h hr hentry)

/-! ## A directory and those above it -/

theorem ancestorsUpTo_eq_cons (count : Nat) (path : Path) :
    ∃ parents, ancestorsUpTo count path = path :: parents := by
  cases count with
  | zero => exact ⟨[], rfl⟩
  | succ count => exact ⟨_, rfl⟩

theorem made_makeChain_cons (h : PointsAt path location) {parents : List Path}
    (hparents : path ≠ [] → Made location tree (tree.makeChain parents).1) :
    Made location tree (tree.makeChain (path :: parents)).1 := by
  by_cases hne : path = []
  · rw [hne, makeChain_nil]
    exact .refl location tree
  · by_cases hnot : tree.makeDirectory path = .error .notFound
    · rw [makeChain_of_notFound hne hnot]
      split
      · exact hparents hne
      · have hone := made_makeOne (tree.makeChain parents).1 path
        rw [h.resolve_eq] at hone
        exact (hparents hne).trans hone
    · have hone := made_makeOne tree path
      rw [makeChain_of_ne_notFound hne hnot]
      rwa [h.resolve_eq] at hone

theorem made_makeChain (tree : FileTree) (count : Nat) (h : PointsAt path location) :
    Made location tree (tree.makeChain (ancestorsUpTo count path)).1 := by
  induction count generalizing path location with
  | zero => exact made_makeChain_cons h fun _ => .refl location tree
  | succ count ih =>
    refine made_makeChain_cons h fun hne => ?_
    rcases List.eq_nil_or_concat' location with rfl | ⟨front, last, rfl⟩
    · exact absurd h.eq_nil hne
    · obtain ⟨parent, hparent, hpoints, -⟩ := h.parent?
      rw [hparent]
      exact (ih hpoints).mono (List.prefix_append _ _)

/-- When the making of a directory and those above it succeeds, the directory is there. -/
theorem find?_of_makeChain {parents : List Path} (h : PointsAt path location)
    (hdone : (tree.makeChain (path :: parents)).2 = none) :
    (tree.makeChain (path :: parents)).1.find? location = some .directory := by
  by_cases hne : path = []
  · have hlocation : location = [] := by
      rw [← h.resolve_eq, hne]
      rfl
    rw [hlocation]
    rfl
  · have hone : ∀ {grown : FileTree}, (grown.makeOne path).2 = none →
        (grown.makeOne path).1.find? location = some .directory := by
      intro grown hgrown
      have hthere := find?_of_makeOne hgrown
      rwa [h.resolve_eq] at hthere
    by_cases hnot : tree.makeDirectory path = .error .notFound
    · rw [makeChain_of_notFound hne hnot] at hdone ⊢
      by_cases hsome : (tree.makeChain parents).2.isSome
      · rw [if_pos hsome] at hdone
        rw [hdone] at hsome
        cases hsome
      · rw [if_neg hsome] at hdone ⊢
        exact hone hdone
    · rw [makeChain_of_ne_notFound hne hnot] at hdone ⊢
      exact hone hdone

theorem makeChain_succeeds (count : Nat) (h : PointsAt path location) (hcount : location.length ≤ count)
    (hroute : path ≠ [] → ∃ r, route path = .ok r) (hopen : Open tree location) :
    (tree.makeChain (ancestorsUpTo count path)).2 = none := by
  induction count generalizing path location with
  | zero =>
    obtain rfl := List.length_eq_zero_iff.mp (Nat.le_zero.mp hcount)
    rw [h.eq_nil, ancestorsUpTo, makeChain_nil]
  | succ count ih =>
    rcases List.eq_nil_or_concat' location with rfl | ⟨front, last, rfl⟩
    · rw [h.eq_nil, ancestorsUpTo, makeChain_nil]
    · have hne := h.ne_nil
      obtain ⟨r, hr⟩ := hroute hne
      obtain ⟨parent, hparent, hpoints, hbegins⟩ := h.parent?
      rw [ancestorsUpTo, hparent]
      by_cases hd : tree.find? front = some .directory
      · -- the directory above is there
        have hfound : tree.makeDirectory path ≠ .error .notFound := by
          have hsize := hopen.sizes last (List.mem_append_right front (List.mem_singleton_self last))
          rcases makeDirectory_in h hr hd hsize with ⟨-, made, hmade⟩ | ⟨-, hpresent⟩
          · rw [hmade]
            exact fun hc => nomatch hc
          · rw [hpresent]
            exact fun hc => nomatch hc
        rw [makeChain_of_ne_notFound hne hfound]
        exact makeOne_in h hr hopen hd
      · -- it is made first, and then there is nothing in the place below it
        have hlength : front.length ≤ count := by
          rw [List.length_append, List.length_singleton] at hcount
          omega
        have hparents := ih hpoints hlength (fun hne => by
          rcases List.eq_nil_or_concat' front with rfl | ⟨above, name, rfl⟩
          · exact absurd hpoints.eq_nil hne
          · exact exists_route_of_prefix hpoints hbegins ⟨r, hr⟩) hopen.above
        have hmade := made_makeChain tree count hpoints
        obtain ⟨others, hothers⟩ := ancestorsUpTo_eq_cons count parent
        have hthere : (tree.makeChain (ancestorsUpTo count parent)).1.find? front = some .directory := by
          rw [hothers] at hparents ⊢
          exact find?_of_makeChain hpoints hparents
        rw [makeChain_of_notFound hne (makeDirectory_missing h hr hopen.above hd), hparents,
          Option.isSome_none, if_neg Bool.false_ne_true]
        exact makeOne_in h hr (hopen.made hmade) hthere

/-! ## Saving -/

/-- Nothing keeps a text from being saved under a path that points at a location. -/
structure Clear (tree : FileTree) (path : Path) (location : Location) : Prop where
  routed : ∃ r, route path = .ok r ∧ r.slash = false
  sizes : ∀ name ∈ location, Utf8.size name ≤ longestName
  way : ∀ above, above <+: location → above ≠ location →
    ∀ content, tree.find? above ≠ some (.file content)
  place : tree.find? location ≠ some .directory

section
variable (h : PointsAt path (front ++ [last]))
include h

theorem made_makeParent (tree : FileTree) : Made front tree (tree.makeParent path).1 := by
  obtain ⟨parent, hparent, hpoints, -⟩ := h.parent?
  have hmade := made_makeChain tree (parent.names.length + 1) hpoints
  unfold makeParent
  rw [hparent]
  dsimp only
  unfold makeDirectories Path.ancestors
  split
  · rename_i hgrown
    rwa [hgrown] at hmade
  · rename_i hgrown
    rwa [hgrown] at hmade

theorem find?_of_makeParent (hdone : (tree.makeParent path).2 = none) :
    (tree.makeParent path).1.find? front = some .directory := by
  obtain ⟨parent, hparent, hpoints, -⟩ := h.parent?
  unfold makeParent at hdone ⊢
  rw [hparent] at hdone ⊢
  dsimp only at hdone ⊢
  unfold makeDirectories Path.ancestors at hdone ⊢
  obtain ⟨others, hothers⟩ := ancestorsUpTo_eq_cons (parent.names.length + 1) parent
  rw [hothers] at hdone ⊢
  have hthere := @find?_of_makeChain tree _ _ others hpoints
  cases hchain : tree.makeChain (parent :: others) with
  | mk grown failure =>
    rw [hchain] at hthere hdone
    cases failure with
    | some e => cases hdone
    | none => exact hthere rfl

theorem makeParent_succeeds {r : Route} (hr : route path = .ok r) (hopen : Open tree front) :
    (tree.makeParent path).2 = none := by
  obtain ⟨parent, hparent, hpoints, hbegins⟩ := h.parent?
  have hroute : parent ≠ [] → ∃ r, route parent = .ok r := by
    intro hne
    rcases List.eq_nil_or_concat' front with rfl | ⟨above, name, rfl⟩
    · exact absurd hpoints.eq_nil hne
    · exact exists_route_of_prefix hpoints hbegins ⟨r, hr⟩
  have hlength : front.length ≤ parent.names.length + 1 := by
    have hnames := congrArg List.length hpoints.filterMap_names
    rw [List.length_map] at hnames
    have hle := List.length_filterMap_le Component.ofName? parent.names
    omega
  have hdone := makeChain_succeeds (parent.names.length + 1) hpoints hlength hroute hopen
  unfold makeParent
  rw [hparent]
  dsimp only
  unfold makeDirectories Path.ancestors
  cases hchain : tree.makeChain (ancestorsUpTo (parent.names.length + 1) parent) with
  | mk grown failure =>
    rw [hchain] at hdone
    obtain rfl : failure = none := hdone
    rfl

/-- What a save does to the entries: directories are made on the way, and if it succeeds the text is
put in its place. -/
theorem find?_of_save (text : Text) (place : Location) :
    (tree.save path text).1.find? place = tree.find? place ∨
      (place <+: front ∧ tree.find? place = none ∧
        (tree.save path text).1.find? place = some .directory) ∨
      ((tree.save path text).2 = none ∧ place = front ++ [last] ∧
        (tree.save path text).1.find? place = some (.file (.text text))) := by
  have hmade := made_makeParent h tree
  unfold save
  cases hparent : tree.makeParent path with
  | mk grown failure =>
    rw [hparent] at hmade
    cases failure with
    | some f => exact (hmade place).imp_right .inl
    | none =>
      dsimp only
      cases hwrite : grown.write path (.text text) with
      | error e => exact (hmade place).imp_right .inl
      | ok written =>
        dsimp only
        rw [find?_of_write hwrite, h.resolve_eq]
        by_cases hplace : place = front ++ [last]
        · rw [if_pos hplace]
          exact .inr (.inr ⟨rfl, hplace, rfl⟩)
        · rw [if_neg hplace]
          exact (hmade place).imp_right .inl

theorem write_succeeds {r : Route} (hr : route path = .ok r) (hslash : r.slash = false)
    (hsize : Utf8.size last ≤ longestName) (hd : tree.find? front = some .directory)
    (hplace : tree.find? (front ++ [last]) ≠ some .directory) (content : Content) :
    ∃ written, tree.write path content = .ok written := by
  obtain ⟨hlast, -⟩ := names_of_pointsAt h hr
  obtain ⟨dir, hdir, hat⟩ := enterAll_front h hr hd
  have hdots : ¬(r.slash ∨ r.last = ['.'] ∨ r.last = ['.', '.']) := by
    rw [hslash]
    exact not_or.mpr ⟨Bool.false_ne_true, last_not_dots h hr⟩
  unfold write
  rw [hr]
  simp only [bind, Except.bind, attach_of_ok hdir, dif_neg hdots]
  rw [dif_neg (by rw [hlast]; exact Nat.not_lt_of_le hsize), dif_neg (by rw [hat, hlast]; exact hplace)]
  exact ⟨_, rfl⟩

theorem clear_of_save {text : Text} (hsave : (tree.save path text).2 = none) :
    tree.Clear path (front ++ [last]) := by
  have hmade := made_makeParent h tree
  have hpair : tree.save path text = ((tree.save path text).1, none) := Prod.ext rfl hsave
  obtain ⟨grown, hgrown, hwrite⟩ := exists_of_save hpair
  have hd := find?_of_makeParent h (congrArg Prod.snd hgrown)
  rw [hgrown] at hmade hd
  obtain ⟨r, dir, hr, hdir, hslash, hname, hnot, -⟩ := exists_of_write_eq_ok hwrite
  obtain ⟨hlast, -⟩ := names_of_pointsAt h hr
  obtain ⟨dir', hdir', hat⟩ := enterAll_front h hr hd
  obtain rfl : dir' = dir := Except.ok.inj (hdir'.symm.trans hdir)
  rw [hat, hlast] at hnot
  constructor
  case routed => exact ⟨r, hr, hslash⟩
  case sizes =>
    intro name hmem
    rcases List.mem_append.mp hmem with hfront | hmem
    · exact (isEntryName_of_find? (by rw [hd]; rfl) name hfront).size_le
    · rw [List.mem_singleton.mp hmem, ← hlast]
      exact hname.size_le
  case way =>
    intro above habove hne content hfile
    -- above the text there are directories now, so there was no file before
    obtain ⟨more, hmore⟩ := (List.prefix_concat_iff.mp habove).resolve_left hne
    have hthere : grown.find? above = some .directory := by
      by_cases hnil : more = []
      · rwa [← hmore, hnil, List.append_nil] at hd
      · exact find?_above hnil (by rw [hmore, hd]; rfl)
    rcases hmade above with hsame | ⟨-, hnone, -⟩
    · rw [← hsame, hthere] at hfile
      cases hfile
    · rw [hnone] at hfile
      cases hfile
  case place =>
    intro hplace
    rcases hmade (front ++ [last]) with hsame | ⟨-, hnone, -⟩
    · exact hnot (hsame.trans hplace)
    · rw [hnone] at hplace
      cases hplace

theorem save_of_clear (hclear : tree.Clear path (front ++ [last])) (text : Text) :
    (tree.save path text).2 = none := by
  obtain ⟨r, hr, hslash⟩ := hclear.routed
  have hlonger := not_concat_prefix front last
  have hopen : Open tree front := by
    refine ⟨fun name hname => hclear.sizes name (List.mem_append_left _ hname), ?_⟩
    intro above habove
    refine hclear.way above (habove.trans (List.prefix_append _ _)) ?_
    rintro rfl
    exact hlonger habove
  have hmade := made_makeParent h tree
  have hdone := makeParent_succeeds h hr hopen
  have hd := find?_of_makeParent h hdone
  have hplace : (tree.makeParent path).1.find? (front ++ [last]) ≠ some .directory := by
    rw [(hmade (front ++ [last])).resolve_right fun hc => hlonger hc.1]
    exact hclear.place
  have hsize := hclear.sizes last (List.mem_append_right front (List.mem_singleton_self last))
  obtain ⟨written, hwritten⟩ := write_succeeds h hr hslash hsize hd hplace (.text text)
  unfold save
  cases hparent : tree.makeParent path with
  | mk grown failure =>
    rw [hparent] at hdone hwritten
    obtain rfl : failure = none := hdone
    dsimp only at hwritten ⊢
    rw [hwritten]

theorem save_eq_none_iff (text : Text) :
    (tree.save path text).2 = none ↔ tree.Clear path (front ++ [last]) :=
  ⟨clear_of_save h, fun hclear => save_of_clear h hclear text⟩

/-! ## Reading -/

theorem read_eq_ok_iff_of_pointsAt {text : Text} : tree.read path = .ok text ↔
    (∃ r, route path = .ok r ∧ r.slash = false) ∧
      tree.find? (front ++ [last]) = some (.file (.text text)) := by
  rw [read_eq_ok_iff, hasFile_iff, h.resolve_eq]
  constructor
  · rintro ⟨⟨r, dir, place, content, hr, -, -, hslash, -⟩, hfind⟩
    exact ⟨⟨r, hr, hslash⟩, hfind⟩
  · rintro ⟨⟨r, hr, hslash⟩, hfind⟩
    obtain ⟨dir, hdir, hstep⟩ := exists_step_of_find? h hr hfind
    exact ⟨⟨r, dir, _, _, hr, hdir, hstep, hslash, hfind⟩, hfind⟩

end

/-! ## Absolute paths -/

theorem isAbsolute_of_parent? {parent : Path} (h : path.isAbsolute) (hparent : path.parent? = some parent) :
    parent.isAbsolute := by
  cases path with
  | nil => cases h
  | cons c rest =>
    obtain rfl : c = '/' := Option.some.inj (eq_of_beq h)
    unfold Path.parent? at hparent
    dsimp only at hparent
    split at hparent
    · obtain rfl := Option.some.inj hparent
      rfl
    · cases hparent

theorem makeChain_of_isAbsolute {paths : List Path} (h : ∀ p ∈ paths, p.isAbsolute) :
    (tree.makeChain paths).1 = tree := by
  have hone : ∀ p ∈ paths, (tree.makeOne p).1 = tree := by
    intro p hp
    unfold makeOne
    split
    · rename_i made hmade
      obtain ⟨r, -, hr, -⟩ := exists_of_makeDirectory_eq_ok hmade
      exact absurd hr (route_of_isAbsolute (h p hp) r)
    · rfl
  induction paths with
  | nil => rfl
  | cons p paths ih =>
    have hne : p ≠ [] := by
      rintro rfl
      cases h [] List.mem_cons_self
    have hparents := ih (fun q hq => h q (List.mem_cons_of_mem _ hq))
      fun q hq => hone q (List.mem_cons_of_mem _ hq)
    by_cases hnot : tree.makeDirectory p = .error .notFound
    · rw [makeChain_of_notFound hne hnot]
      split
      · exact hparents
      · rw [hparents]
        exact hone p List.mem_cons_self
    · rw [makeChain_of_ne_notFound hne hnot]
      exact hone p List.mem_cons_self

theorem isAbsolute_of_mem_ancestorsUpTo {count : Nat} (h : path.isAbsolute) :
    ∀ p ∈ ancestorsUpTo count path, p.isAbsolute := by
  induction count generalizing path with
  | zero =>
    intro p hp
    rw [List.mem_singleton.mp hp]
    exact h
  | succ count ih =>
    intro p hp
    rcases List.mem_cons.mp hp with rfl | hp
    · exact h
    · split at hp
      · rename_i parent hparent
        exact ih (isAbsolute_of_parent? h hparent) p hp
      · cases hp

/-- Nothing can be saved under an absolute path, and nothing is made. -/
theorem save_of_isAbsolute (tree : FileTree) (h : path.isAbsolute) (text : Text) :
    ∃ failure, tree.save path text = (tree, some failure) := by
  have hparent : (tree.makeParent path).1 = tree := by
    unfold makeParent
    split
    · rfl
    · rename_i parent hparent
      have hchain : (tree.makeDirectories parent).1 = tree :=
        makeChain_of_isAbsolute (isAbsolute_of_mem_ancestorsUpTo (isAbsolute_of_parent? h hparent))
      split
      · rename_i grown hgrown
        rwa [hgrown] at hchain
      · rename_i grown e hgrown
        rwa [hgrown] at hchain
  unfold save
  cases hmade : tree.makeParent path with
  | mk grown failure =>
    rw [hmade] at hparent
    obtain rfl : grown = tree := hparent
    cases failure with
    | some f => exact ⟨f, rfl⟩
    | none =>
      dsimp only
      cases hwrite : grown.write path (.text text) with
      | error e => exact ⟨_, rfl⟩
      | ok written =>
        obtain ⟨r, -, hr, -⟩ := exists_of_write_eq_ok hwrite
        exact absurd hr (route_of_isAbsolute h r)

end DocTools.FileTree
