import DocTools.Proofs.FileTree.Entering
import DocTools.Proofs.Path.Steps

/-! # Directories along any path

What making directories needs, for paths that go up and down: no file stands at a place they come by,
no name is too long, and no step leads above the top. The main statements: `makeDirectories_eq_none_iff`,
which says when directories can be made, and `not_isDirectory_of_makeDirectories`, by which one that can
not be made is not there afterwards. -/
namespace DocTools.FileTree
set_option autoImplicit false

open DocTools.Path (Component Ends follow steps ancestorsUpTo)

variable {tree before middle after : FileTree} {path : Path} {way front : List Component}
  {place : Location}

/-! ## Places along a way -/

/-- The place that steps from the top lead to. -/
def placeOf (way : List Component) : Location := way.foldl follow []

theorem placeOf_concat (front : List Component) (c : Component) :
    placeOf (front ++ [c]) = follow (placeOf front) c := by
  rw [placeOf, List.foldl_append]
  rfl

/-- A way comes by a place, which may be its end. -/
def ComesBy (way : List Component) (place : Location) : Prop :=
  ∃ front, front <+: way ∧ placeOf front = place

theorem comesBy_end (way : List Component) : ComesBy way (placeOf way) := ⟨way, List.prefix_rfl, rfl⟩

theorem ComesBy.mono (h : ComesBy front place) (hway : front <+: way) : ComesBy way place := by
  obtain ⟨start, hstart, hplace⟩ := h
  exact ⟨start, hstart.trans hway, hplace⟩

theorem comesBy_nil_iff : ComesBy [] place ↔ place = [] := by
  constructor
  · rintro ⟨start, hstart, rfl⟩
    rw [List.prefix_nil.mp hstart]
    rfl
  · rintro rfl
    exact comesBy_end []

theorem comesBy_concat_iff {c : Component} :
    ComesBy (front ++ [c]) place ↔ ComesBy front place ∨ place = placeOf (front ++ [c]) := by
  constructor
  · rintro ⟨start, hstart, rfl⟩
    rcases List.prefix_concat_iff.mp hstart with rfl | hstart
    · exact .inr rfl
    · exact .inl ⟨start, hstart, rfl⟩
  · rintro (h | rfl)
    · exact h.mono (List.prefix_append _ _)
    · exact comesBy_end _

theorem comesBy_name (front : List Component) (name : Text) :
    ComesBy (front ++ [.name name]) (placeOf front ++ [name]) :=
  ⟨_, List.prefix_rfl, placeOf_concat front (.name name)⟩

theorem placeOf_names (lead : List Component) (below : Location) :
    placeOf (lead ++ below.map .name) = placeOf lead ++ below := by
  rw [placeOf, List.foldl_append, Path.foldl_follow_names]
  rfl

/-- A way that goes down at its end comes by the places below, one after the other. -/
theorem comesBy_names_iff {lead : List Component} {below : Location} :
    ComesBy (lead ++ below.map .name) place ↔
      ComesBy lead place ∨ ∃ start, start <+: below ∧ place = placeOf lead ++ start := by
  induction below using List.reverseRecOn with
  | nil =>
    rw [List.map_nil, List.append_nil]
    refine ⟨.inl, fun h => h.elim id ?_⟩
    rintro ⟨start, hstart, rfl⟩
    rw [List.prefix_nil.mp hstart, List.append_nil]
    exact comesBy_end lead
  | append_singleton below name ih =>
    rw [List.map_append, List.map_singleton, ← List.append_assoc, comesBy_concat_iff, ih, or_assoc,
      List.append_assoc, ← List.map_singleton, ← List.map_append, placeOf_names]
    refine or_congr_right ⟨?_, ?_⟩
    · rintro (⟨start, hstart, rfl⟩ | rfl)
      · exact ⟨start, hstart.trans (List.prefix_append _ _), rfl⟩
      · exact ⟨_, List.prefix_rfl, rfl⟩
    · rintro ⟨start, hstart, rfl⟩
      rcases List.prefix_concat_iff.mp hstart with rfl | hstart
      · exact .inr rfl
      · exact .inl ⟨start, hstart, rfl⟩

theorem prefix_follow {c : Component} (h : c ≠ .up) (place : Location) : place <+: follow place c := by
  cases c with
  | root => exact List.prefix_rfl
  | here => exact List.prefix_rfl
  | up => exact absurd rfl h
  | name text => exact List.prefix_append place [text]

/-- A way that never goes up comes only by places above its end. -/
theorem ComesBy.prefix_end (h : ComesBy way place) (hdown : .up ∉ way) : place <+: placeOf way := by
  obtain ⟨front, ⟨rest, rfl⟩, rfl⟩ := h
  induction rest using List.reverseRecOn with
  | nil => simp only [List.append_nil, List.prefix_rfl]
  | append_singleton rest c ih =>
    rw [← List.append_assoc] at hdown ⊢
    rw [List.mem_append, not_or, List.mem_singleton] at hdown
    rw [placeOf_concat]
    exact (ih hdown.1).trans (prefix_follow (Ne.symm hdown.2) _)

/-- No step goes up from the top. -/
def StaysInside (way : List Component) : Prop := ∀ front, front ++ [.up] <+: way → placeOf front ≠ []

theorem staysInside_concat_iff {c : Component} :
    StaysInside (front ++ [c]) ↔ StaysInside front ∧ (c = .up → placeOf front ≠ []) := by
  constructor
  · refine fun h => ⟨fun start hstart => h start (hstart.trans (List.prefix_append _ _)), ?_⟩
    rintro rfl
    exact h front List.prefix_rfl
  · rintro ⟨h, hlast⟩ start hstart
    rcases List.prefix_concat_iff.mp hstart with heq | hstart
    · obtain ⟨rfl, hc⟩ := List.append_inj' heq rfl
      exact hlast (List.singleton_inj.mp hc).symm
    · exact h start hstart

/-- All places along a way are directories. -/
structure Walkable (tree : FileTree) (way : List Component) : Prop where
  inside : StaysInside way
  there : ∀ place, ComesBy way place → tree.find? place = some .directory

/-- Nothing is in the way of directories along a way. -/
structure Passable (tree : FileTree) (way : List Component) : Prop where
  inside : StaysInside way
  sizes : ∀ name, .name name ∈ way → Utf8.size name ≤ longestName
  clear : ∀ place, ComesBy way place → ∀ content, tree.find? place ≠ some (.file content)

theorem staysInside_nil : StaysInside [] := by
  intro front hfront
  exact absurd (List.prefix_nil.mp hfront) (List.concat_ne_nil _ _)

theorem walkable_nil (tree : FileTree) : Walkable tree [] := by
  refine ⟨staysInside_nil, fun place hplace => ?_⟩
  rw [comesBy_nil_iff.mp hplace]
  rfl

theorem walkable_concat_iff {c : Component} :
    Walkable tree (front ++ [c]) ↔ Walkable tree front ∧ (c = .up → placeOf front ≠ []) ∧
      tree.find? (follow (placeOf front) c) = some .directory := by
  rw [← placeOf_concat]
  constructor
  · rintro ⟨hinside, hthere⟩
    obtain ⟨hfront, hup⟩ := staysInside_concat_iff.mp hinside
    exact ⟨⟨hfront, fun place hplace => hthere place (comesBy_concat_iff.mpr (.inl hplace))⟩, hup,
      hthere _ (comesBy_end _)⟩
  · rintro ⟨⟨hinside, hthere⟩, hup, hend⟩
    refine ⟨staysInside_concat_iff.mpr ⟨hinside, hup⟩, fun place hplace => ?_⟩
    rcases comesBy_concat_iff.mp hplace with hplace | rfl
    · exact hthere place hplace
    · exact hend

theorem passable_concat {c : Component} (h : Passable tree (front ++ [c])) :
    Passable tree front ∧ (c = .up → placeOf front ≠ []) := by
  obtain ⟨hfront, hup⟩ := staysInside_concat_iff.mp h.inside
  exact ⟨⟨hfront, fun name hname => h.sizes name (List.mem_append_left _ hname),
    fun place hplace => h.clear place (comesBy_concat_iff.mpr (.inl hplace))⟩, hup⟩

theorem Walkable.of_prefix (h : Walkable tree way) (hfront : front <+: way) : Walkable tree front :=
  ⟨fun start hstart => h.inside start (hstart.trans hfront),
    fun place hplace => h.there place (hplace.mono hfront)⟩

theorem Walkable.grow (h : Walkable before way) (hgrows : Grows before after) : Walkable after way :=
  ⟨h.inside, fun place hplace => hgrows.directory place (h.there place hplace)⟩

/-- A name that a way of directories is entered by is one that an entry has. -/
theorem Walkable.sizes (h : Walkable tree way) {name : Text} (hname : .name name ∈ way) :
    Utf8.size name ≤ longestName := by
  obtain ⟨start, rest, rfl⟩ := List.append_of_mem hname
  have hplace : ComesBy (start ++ .name name :: rest) (placeOf (start ++ [.name name])) :=
    (comesBy_end _).mono ⟨rest, by rw [List.append_assoc, List.singleton_append]⟩
  have hd := h.there _ hplace
  rw [placeOf_concat] at hd
  exact (isEntryName_of_find? (Option.isSome_of_eq_some hd) name (by simp [follow])).size_le

/-- Where there are directories now, no file was in the way before. -/
theorem Walkable.passable (h : Walkable after way) (hgrows : Grows before after) :
    Passable before way := by
  refine ⟨h.inside, fun _ => h.sizes, fun place hplace content hfile => ?_⟩
  obtain ⟨content', hfile'⟩ := hgrows.file place content hfile
  rw [h.there place hplace] at hfile'
  cases hfile'

theorem find?_follow_up (h : tree.find? place = some .directory) :
    tree.find? (follow place .up) = some .directory := by
  rcases List.eq_nil_or_concat' place with rfl | ⟨above, last, rfl⟩
  · exact h
  · rw [follow, List.dropLast_concat]
    exact find?_of_child (Option.isSome_of_eq_some h)

theorem ofName?_cases (name : Text) : name = ['.'] ∧ Component.ofName? name = none ∨
    name = ['.', '.'] ∧ Component.ofName? name = some .up ∨
      name ≠ ['.'] ∧ name ≠ ['.', '.'] ∧ Component.ofName? name = some (.name name) := by
  by_cases hhere : name = ['.']
  · exact .inl ⟨hhere, by rw [hhere]; rfl⟩
  · by_cases hup : name = ['.', '.']
    · exact .inr (.inl ⟨hup, by rw [hup]; rfl⟩)
    · exact .inr (.inr ⟨hhere, hup, by rw [Component.ofName?, if_neg hhere, if_neg hup]⟩)

/-! ## Entering directories -/

theorem exists_enter_iff {dir : tree.Directory} {name : Text} :
    (∃ next, tree.enter dir name = .ok next) ↔ ∀ c ∈ Component.ofName? name,
      (c = .up → dir.1 ≠ []) ∧ tree.find? (follow dir.1 c) = some .directory := by
  have henter : (∃ next, tree.enter dir name = .ok next) ↔
      ∃ place, tree.step dir name = .ok place ∧ tree.find? place = some .directory := by
    constructor
    · rintro ⟨next, hnext⟩
      exact ⟨next.1, enter_eq_ok_iff.mp hnext, next.2⟩
    · rintro ⟨place, hstep, hd⟩
      exact ⟨⟨place, hd⟩, enter_eq_ok_iff.mpr hstep⟩
  rw [henter]
  rcases ofName?_cases name with ⟨rfl, -⟩ | ⟨rfl, -⟩ | ⟨hhere, hup, hname⟩
  · refine ⟨?_, fun _ => ⟨dir.1, rfl, dir.2⟩⟩
    rintro - c ⟨⟩
  · have hstep : tree.step dir ['.', '.'] =
        if dir.1 = [] then .error .notFound else .ok dir.1.dropLast := rfl
    rw [hstep]
    constructor
    · rintro ⟨place, hplace, hd⟩ c ⟨⟩
      split at hplace
      · cases hplace
      · next hne =>
        cases hplace
        exact ⟨fun _ => hne, hd⟩
    · intro h
      obtain ⟨hne, hd⟩ := h .up rfl
      exact ⟨_, if_neg (hne rfl), hd⟩
  · have hstep : tree.step dir name =
        if longestName < Utf8.size name then .error .nameTooLong else .ok (dir.1 ++ [name]) := by
      rw [step, if_neg hhere, if_neg hup]
    rw [hstep, hname]
    constructor
    · rintro ⟨place, hplace, hd⟩ c ⟨⟩
      split at hplace
      · cases hplace
      · cases hplace
        refine ⟨?_, hd⟩
        rintro ⟨⟩
    · intro h
      obtain ⟨-, hd⟩ := h (.name name) rfl
      have hsize := (isEntryName_of_find? (Option.isSome_of_eq_some hd) name (by simp [follow])).size_le
      exact ⟨_, if_neg (Nat.not_lt_of_le hsize), hd⟩

theorem exists_enterAll_concat_iff {names : List Text} {name : Text} :
    (∃ goal, tree.enterAll tree.root (names ++ [name]) = .ok goal) ↔
      ∃ dir, tree.enterAll tree.root names = .ok dir ∧ ∃ next, tree.enter dir name = .ok next := by
  rw [enterAll_append]
  cases tree.enterAll tree.root names with
  | error e => exact ⟨fun ⟨_, h⟩ => (nomatch h), fun ⟨_, h, _⟩ => nomatch h⟩
  | ok dir =>
    show (∃ goal, tree.enterAll dir [name] = .ok goal) ↔ _
    constructor
    · rintro ⟨goal, hgoal⟩
      obtain ⟨next, hnext, -⟩ := bind_eq_ok.mp hgoal
      exact ⟨dir, rfl, next, hnext⟩
    · rintro ⟨_, ⟨⟩, next, hnext⟩
      exact ⟨next, bind_eq_ok.mpr ⟨next, hnext, rfl⟩⟩

theorem location_eq_placeOf {names : List Text} {dir : tree.Directory}
    (h : tree.enterAll tree.root names = .ok dir) :
    dir.1 = placeOf (names.filterMap Component.ofName?) := location_of_enterAll h

/-- Names can be entered one after another exactly if all places along them are directories. -/
theorem exists_enterAll_iff {names : List Text} :
    (∃ goal, tree.enterAll tree.root names = .ok goal) ↔
      Walkable tree (names.filterMap Component.ofName?) := by
  induction names using List.reverseRecOn with
  | nil => exact ⟨fun _ => walkable_nil tree, fun _ => ⟨tree.root, rfl⟩⟩
  | append_singleton names name ih =>
    have hstep : (∃ goal, tree.enterAll tree.root (names ++ [name]) = .ok goal) ↔
        Walkable tree (names.filterMap Component.ofName?) ∧ ∀ c ∈ Component.ofName? name,
          (c = .up → placeOf (names.filterMap Component.ofName?) ≠ []) ∧
            tree.find? (follow (placeOf (names.filterMap Component.ofName?)) c) = some .directory := by
      rw [exists_enterAll_concat_iff, ← ih]
      constructor
      · rintro ⟨dir, hdir, hnext⟩
        rw [← location_eq_placeOf hdir]
        exact ⟨⟨dir, hdir⟩, exists_enter_iff.mp hnext⟩
      · rintro ⟨⟨dir, hdir⟩, hc⟩
        rw [← location_eq_placeOf hdir] at hc
        exact ⟨dir, hdir, exists_enter_iff.mpr hc⟩
    rw [hstep, List.filterMap_append]
    cases hname : Component.ofName? name with
    | none =>
      rw [List.filterMap_cons_none hname, List.filterMap_nil, List.append_nil]
      exact and_iff_left fun c hc => nomatch hc
    | some c =>
      rw [List.filterMap_cons_some hname, List.filterMap_nil, walkable_concat_iff]
      refine and_congr_right fun _ => ⟨fun h => h c rfl, ?_⟩
      rintro h _ ⟨⟩
      exact h

/-- A step that is free and leads to no directory is one down to where there is nothing. -/
theorem enter_of_passable {dir : tree.Directory} {name : Text} {c : Component}
    (hname : Component.ofName? name = some c) (hat : dir.1 = placeOf front)
    (h : Passable tree (front ++ [c])) (hnot : tree.find? (follow dir.1 c) ≠ some .directory) :
    tree.enter dir name = .error .notFound := by
  rcases ofName?_cases name with ⟨-, hnone⟩ | ⟨-, hup⟩ | ⟨hhere, hup, hsame⟩
  · rw [hname] at hnone
    cases hnone
  · obtain rfl := Option.some.inj (hname.symm.trans hup)
    exact absurd (find?_follow_up dir.2) hnot
  · obtain rfl := Option.some.inj (hname.symm.trans hsame)
    have hsize := h.sizes name (List.mem_append_right _ (List.mem_singleton_self _))
    have hstep : tree.step dir name = .ok (dir.1 ++ [name]) := by
      rw [step, if_neg hhere, if_neg hup, if_neg (Nat.not_lt_of_le hsize)]
    refine enter_missing hstep ?_
    cases hfind : tree.find? (dir.1 ++ [name]) with
    | none => rfl
    | some entry =>
      cases entry with
      | directory => exact absurd hfind hnot
      | file content =>
        rw [hat] at hfind
        exact absurd hfind (h.clear _ (comesBy_name front name) content)

/-- Where no file is in the way, what can not be entered is not found. -/
theorem enterAll_of_passable {names : List Text}
    (h : Passable tree (names.filterMap Component.ofName?))
    (hnot : ¬Walkable tree (names.filterMap Component.ofName?)) :
    tree.enterAll tree.root names = .error .notFound := by
  induction names using List.reverseRecOn with
  | nil => exact absurd (walkable_nil tree) hnot
  | append_singleton names name ih =>
    rw [List.filterMap_append] at h hnot
    rw [enterAll_append]
    cases hname : Component.ofName? name with
    | none =>
      rw [List.filterMap_cons_none hname, List.filterMap_nil, List.append_nil] at h hnot
      rw [ih h hnot]
      rfl
    | some c =>
      rw [List.filterMap_cons_some hname, List.filterMap_nil] at h hnot
      obtain ⟨hfront, hup⟩ := passable_concat h
      by_cases hwalk : Walkable tree (names.filterMap Component.ofName?)
      · obtain ⟨dir, hdir⟩ := exists_enterAll_iff.mpr hwalk
        have hat := location_eq_placeOf hdir
        rw [walkable_concat_iff, not_and, not_and, ← hat] at hnot
        rw [hdir]
        show (tree.enter dir name >>= fun next => tree.enterAll next []) = _
        rw [enter_of_passable hname hat h (hnot hwalk fun hc => hat ▸ hup hc)]
        rfl
      · rw [ih hfront hwalk]
        rfl

/-! ## One directory -/

theorem makeOne_of_isDirectory (h : tree.isDirectory path) : (tree.makeOne path).2 = none := by
  unfold makeOne
  split
  · rfl
  · exact if_pos h

theorem makeOne_fst_of_isDirectory (h : tree.isDirectory path) : (tree.makeOne path).1 = tree := by
  unfold makeOne
  split
  · next made hmade =>
    have hnone := (find?_of_makeDirectory hmade).1
    rw [find?_of_isDirectory h] at hnone
    cases hnone
  · rfl

section
variable {r : Route} (hr : route path = .ok r)
include hr

theorem steps_of_route :
    path.steps = r.way.filterMap Component.ofName? ++ (Component.ofName? r.last).toList := by
  rw [steps, (names_of_route hr).2, List.filterMap_append]
  cases hname : Component.ofName? r.last with
  | none => rw [List.filterMap_cons_none hname]; rfl
  | some c => rw [List.filterMap_cons_some hname]; rfl

theorem isDirectory_iff_walkable : tree.isDirectory path ↔ Walkable tree path.steps := by
  rw [steps, ← exists_enterAll_iff]
  constructor
  · intro h
    obtain ⟨goal, hgoal, -⟩ := exists_enterAll_names h
    exact ⟨goal, hgoal⟩
  · intro h
    rw [(names_of_route hr).2] at h
    obtain ⟨dir, hdir, next, hnext⟩ := exists_enterAll_concat_iff.mp h
    unfold isDirectory locate
    rw [hr]
    simp only [bind, Except.bind, hdir, enter_eq_ok_iff.mp hnext, next.2]
    rfl

/-- Where there is a directory above, a directory is made or something is there. -/
theorem makeDirectory_of_walkable (hwalk : Walkable tree (r.way.filterMap Component.ofName?)) :
    tree.makeDirectory path ≠ .error .notFound := by
  obtain ⟨dir, hdir⟩ := exists_enterAll_iff.mpr hwalk
  unfold makeDirectory
  rw [hr]
  simp only [bind, Except.bind, attach_of_ok hdir]
  intro h
  split at h
  · cases h
  · split at h
    · cases h
    · split at h
      · cases h
      · cases h

theorem makeDirectory_of_passable (hpass : Passable tree (r.way.filterMap Component.ofName?))
    (hnot : ¬Walkable tree (r.way.filterMap Component.ofName?)) :
    tree.makeDirectory path = .error .notFound := by
  unfold makeDirectory
  rw [hr]
  simp only [bind, Except.bind, attach_of_error (enterAll_of_passable hpass hnot)]

theorem makeOne_of_walkable (hwalk : Walkable tree (r.way.filterMap Component.ofName?))
    (hpass : Passable tree path.steps) : (tree.makeOne path).2 = none := by
  by_cases hd : tree.isDirectory path
  · exact makeOne_of_isDirectory hd
  · -- the last name is one down, as the others lead to directories
    rw [isDirectory_iff_walkable hr, steps_of_route hr] at hd
    rw [steps_of_route hr] at hpass
    rcases ofName?_cases r.last with ⟨-, hlast⟩ | ⟨-, hlast⟩ | ⟨hhere, hup, hlast⟩
    · rw [hlast, Option.toList_none, List.append_nil] at hd
      exact absurd hwalk hd
    · rw [hlast, Option.toList_some] at hd hpass
      refine absurd (walkable_concat_iff.mpr ⟨hwalk, (passable_concat hpass).2, ?_⟩) hd
      exact find?_follow_up (hwalk.there _ (comesBy_end _))
    · rw [hlast, Option.toList_some] at hd hpass
      obtain ⟨dir, hdir⟩ := exists_enterAll_iff.mpr hwalk
      have hat := location_eq_placeOf hdir
      have hsize := hpass.sizes r.last (List.mem_append_right _ (List.mem_singleton_self _))
      have hnone : tree.find? (dir.1 ++ [r.last]) = none := by
        cases hfind : tree.find? (dir.1 ++ [r.last]) with
        | none => rfl
        | some entry =>
          cases entry with
          | directory =>
            refine absurd (walkable_concat_iff.mpr ⟨hwalk, (passable_concat hpass).2, ?_⟩) hd
            rw [← hat]
            exact hfind
          | file content =>
            rw [hat] at hfind
            exact absurd hfind (hpass.clear _ (comesBy_name _ r.last) content)
      unfold makeOne makeDirectory
      rw [hr]
      simp only [bind, Except.bind, attach_of_ok hdir, dif_neg (not_or.mpr ⟨hhere, hup⟩)]
      rw [dif_neg (Nat.not_lt_of_le hsize)]
      split
      · rfl
      · next e he =>
        split at he
        · next hsome => rw [hnone] at hsome; cases hsome
        · cases he

end

/-! ## Directories made along a way -/

/-- Directories were made at places that a way comes by, where there was nothing. -/
def MadeAlong (way : List Component) (before after : FileTree) : Prop :=
  ∀ place, after.find? place = before.find? place ∨
    ComesBy way place ∧ before.find? place = none ∧ after.find? place = some .directory

theorem MadeAlong.refl (way : List Component) (tree : FileTree) : MadeAlong way tree tree :=
  fun _ => .inl rfl

theorem MadeAlong.mono (h : MadeAlong front before after) (hway : front <+: way) :
    MadeAlong way before after :=
  fun place => (h place).imp_right fun ⟨hplace, hmade⟩ => ⟨hplace.mono hway, hmade⟩

theorem MadeAlong.trans (h : MadeAlong way before middle) (h' : MadeAlong way middle after) :
    MadeAlong way before after := by
  intro place
  rcases h' place with hsame | ⟨hplace, hnone, hmade⟩
  · rw [hsame]
    exact h place
  · rcases h place with hsame | ⟨-, -, hdir⟩
    · exact .inr ⟨hplace, hsame ▸ hnone, hmade⟩
    · rw [hdir] at hnone
      cases hnone

/-- Directories that are made are not in the way of others. -/
theorem Passable.made (h : Passable before way) (hmade : MadeAlong front before after) :
    Passable after way where
  inside := h.inside
  sizes := h.sizes
  clear place hplace content hfile := by
    rcases hmade place with hsame | ⟨-, -, hd⟩
    · exact h.clear place hplace content (hsame ▸ hfile)
    · rw [hd] at hfile
      cases hfile

theorem madeAlong_makeOne (tree : FileTree) (path : Path) :
    MadeAlong path.steps tree (tree.makeOne path).1 := by
  unfold makeOne
  split
  · rename_i made hmade
    obtain ⟨hnone, hfind⟩ := find?_of_makeDirectory hmade
    rw [Path.resolve_eq_steps] at hnone hfind
    intro place
    rw [hfind]
    by_cases hplace : place = path.steps.foldl follow []
    · rw [if_pos hplace, hplace]
      exact .inr ⟨comesBy_end path.steps, hnone, rfl⟩
    · exact .inl (if_neg hplace)
  · exact .refl path.steps tree

theorem route_ne_notFound (hrelative : path.isAbsolute = false) (hne : path ≠ []) :
    route path ≠ .error .notFound := by
  unfold route
  rw [hrelative]
  intro h
  split at h
  · cases h
  · split at h
    · cases h
    · rw [if_neg Bool.false_ne_true] at h
      split at h
      · next hnames => exact Path.names_ne_nil hne hrelative (List.reverse_eq_nil_iff.mp hnames)
      · cases h

/-- A path that does not leave the top is found. -/
theorem makeDirectory_of_nil (hrelative : path.isAbsolute = false) (hsteps : path.steps = [])
    (hne : path ≠ []) : tree.makeDirectory path ≠ .error .notFound := by
  cases hr : route path with
  | error e =>
    unfold makeDirectory
    rw [hr]
    intro hnot
    obtain rfl : e = .notFound := Except.error.inj hnot
    exact route_ne_notFound hrelative hne hr
  | ok r =>
    refine makeDirectory_of_walkable hr ?_
    rw [steps_of_route hr] at hsteps
    rw [(List.append_eq_nil_iff.mp hsteps).1]
    exact walkable_nil tree

/-- A directory is made by itself, or those above it are made first, and then it, if that succeeds. -/
theorem makeChain_cases (tree : FileTree) (path : Path) (parents : List Path) :
    path = [] ∧ tree.makeChain (path :: parents) = (tree, none) ∨
      path ≠ [] ∧ tree.makeDirectory path ≠ .error .notFound ∧
        tree.makeChain (path :: parents) = tree.makeOne path ∨
      path ≠ [] ∧ tree.makeDirectory path = .error .notFound ∧ (tree.makeChain parents).2 ≠ none ∧
        tree.makeChain (path :: parents) = tree.makeChain parents ∨
      path ≠ [] ∧ tree.makeDirectory path = .error .notFound ∧ (tree.makeChain parents).2 = none ∧
        tree.makeChain (path :: parents) = (tree.makeChain parents).1.makeOne path := by
  by_cases hne : path = []
  · exact .inl ⟨hne, by rw [hne, makeChain_nil]⟩
  · by_cases hnot : tree.makeDirectory path = .error .notFound
    · have hchain := makeChain_of_notFound hne hnot parents
      by_cases hdone : (tree.makeChain parents).2 = none
      · rw [hdone, Option.isSome_none, if_neg Bool.false_ne_true] at hchain
        exact .inr (.inr (.inr ⟨hne, hnot, hdone, hchain⟩))
      · rw [if_pos (Option.isSome_iff_ne_none.mpr hdone)] at hchain
        exact .inr (.inr (.inl ⟨hne, hnot, hdone, hchain⟩))
    · exact .inr (.inl ⟨hne, hnot, makeChain_of_ne_notFound hne hnot parents⟩)

theorem ancestorsUpTo_of_parent {parent : Path} (count : Nat) (h : path.parent? = some parent) :
    ancestorsUpTo (count + 1) path = path :: ancestorsUpTo count parent := by
  rw [ancestorsUpTo, h]

theorem madeAlong_makeChain_cons {parents : List Path}
    (hparents : tree.makeDirectory path = .error .notFound →
      MadeAlong path.steps tree (tree.makeChain parents).1) :
    MadeAlong path.steps tree (tree.makeChain (path :: parents)).1 := by
  rcases makeChain_cases tree path parents with
    ⟨-, hchain⟩ | ⟨-, -, hchain⟩ | ⟨-, hnot, -, hchain⟩ | ⟨-, hnot, -, hchain⟩
  · rw [hchain]
    exact .refl path.steps tree
  · rw [hchain]
    exact madeAlong_makeOne tree path
  · rw [hchain]
    exact hparents hnot
  · rw [hchain]
    exact (hparents hnot).trans (madeAlong_makeOne _ path)

theorem madeAlong_makeChain_of_relative (tree : FileTree) (count : Nat) (h : path.isAbsolute = false) :
    MadeAlong path.steps tree (tree.makeChain (ancestorsUpTo count path)).1 := by
  induction count generalizing path with
  | zero => exact madeAlong_makeChain_cons fun _ => .refl path.steps tree
  | succ count ih =>
    rcases List.eq_nil_or_concat' path.steps with hnil | ⟨front, last, hsteps⟩
    · by_cases hne : path = []
      · rw [hne, ancestorsUpTo, makeChain_nil]
        exact .refl _ tree
      · exact madeAlong_makeChain_cons fun hnot => absurd hnot (makeDirectory_of_nil h hnil hne)
    · obtain ⟨parent, hparent, hends, -⟩ := Path.parent?_of_steps h hsteps
      rw [ancestorsUpTo_of_parent count hparent]
      refine madeAlong_makeChain_cons fun _ => (ih hends.relative).mono ?_
      rw [hends.steps_eq, hsteps]
      exact List.prefix_append front [last]

theorem madeAlong_makeChain (tree : FileTree) (count : Nat) (path : Path) :
    MadeAlong path.steps tree (tree.makeChain (ancestorsUpTo count path)).1 := by
  cases h : path.isAbsolute with
  | false => exact madeAlong_makeChain_of_relative tree count h
  | true =>
    rw [makeChain_of_isAbsolute (isAbsolute_of_mem_ancestorsUpTo h)]
    exact .refl path.steps tree

theorem walkable_of_makeOne (h : (tree.makeOne path).2 = none) :
    Walkable (tree.makeOne path).1 path.steps := by
  unfold makeOne at h ⊢
  cases hmade : tree.makeDirectory path with
  | ok made =>
    obtain ⟨r, dir, hr, hdir, hname, -, hfind⟩ := exists_of_makeDirectory_eq_ok hmade
    have hwalk := (exists_enterAll_iff.mp ⟨dir, hdir⟩).grow (grows_makeDirectory hmade)
    rw [steps_of_route hr, Path.ofName?_of_isEntryName hname]
    refine walkable_concat_iff.mpr ⟨hwalk, fun hc => (nomatch hc), ?_⟩
    rw [← location_eq_placeOf hdir]
    exact (hfind _).trans (if_pos rfl)
  | error e =>
    simp only [hmade] at h ⊢
    split at h
    · next hd =>
      obtain ⟨r, hr⟩ := exists_route_of_isDirectory hd
      exact (isDirectory_iff_walkable hr).mp hd
    · cases h

/-- When directories were made along a way, they are all there. -/
theorem walkable_of_makeChain {parents : List Path}
    (hdone : (tree.makeChain (path :: parents)).2 = none) :
    Walkable (tree.makeChain (path :: parents)).1 path.steps := by
  rcases makeChain_cases tree path parents with
    ⟨hnil, hchain⟩ | ⟨-, -, hchain⟩ | ⟨-, -, hfails, hchain⟩ | ⟨-, -, -, hchain⟩
  · rw [hnil]
    exact walkable_nil _
  · rw [hchain] at hdone ⊢
    exact walkable_of_makeOne hdone
  · rw [hchain] at hdone
    exact absurd hdone hfails
  · rw [hchain] at hdone ⊢
    exact walkable_of_makeOne hdone

theorem route_of_parent {parent : Path} (hends : Ends parent way) (hbegins : parent <+: path)
    (hroute : ∃ r, route path = .ok r) (hne : parent ≠ []) : ∃ r, route parent = .ok r := by
  obtain ⟨hnul, hsize, -, -⟩ := exists_route_iff.mp hroute
  obtain ⟨rest, rfl⟩ := hbegins
  rw [Utf8.size_append] at hsize
  exact exists_route_iff.mpr ⟨fun hmem => hnul (List.mem_append_left _ hmem),
    Nat.le_trans (Nat.le_add_right _ _) hsize, hends.relative, Path.names_ne_nil hne hends.relative⟩

theorem makeChain_of_nil (h : Ends path []) (hroute : path ≠ [] → ∃ r, route path = .ok r)
    (parents : List Path) : (tree.makeChain (path :: parents)).2 = none := by
  by_cases hne : path = []
  · rw [hne, makeChain_nil]
  · obtain ⟨r, hr⟩ := hroute hne
    have hd : tree.isDirectory path := by
      rw [isDirectory_iff_walkable hr, h.steps_eq]
      exact walkable_nil tree
    rw [makeChain_of_ne_notFound hne (makeDirectory_of_nil h.relative h.steps_eq hne)]
    exact makeOne_of_isDirectory hd

theorem makeChain_of_passable (count : Nat) (h : Ends path way) (hcount : way.length ≤ count)
    (hroute : path ≠ [] → ∃ r, route path = .ok r) (hpass : Passable tree way) :
    (tree.makeChain (ancestorsUpTo count path)).2 = none := by
  induction count generalizing path way with
  | zero =>
    obtain rfl := List.length_eq_zero_iff.mp (Nat.le_zero.mp hcount)
    exact makeChain_of_nil h hroute []
  | succ count ih =>
    rcases List.eq_nil_or_concat' way with rfl | ⟨front, last, rfl⟩
    · exact makeChain_of_nil h hroute _
    · have hne := h.ne_nil
      obtain ⟨r, hr⟩ := hroute hne
      obtain ⟨parent, hparent, hends, hbegins⟩ := h.parent?
      -- the names on the way are those of the steps above
      have hfront : r.way.filterMap Component.ofName? = front := by
        obtain ⟨names, hnames, hsteps⟩ := h.names_eq
        rw [(names_of_route hr).2] at hnames
        rw [(List.append_inj' hnames rfl).1, hsteps]
      obtain ⟨habove, -⟩ := passable_concat hpass
      rw [ancestorsUpTo_of_parent count hparent]
      by_cases hwalk : Walkable tree front
      · rw [← hfront] at hwalk
        rw [makeChain_of_ne_notFound hne (makeDirectory_of_walkable hr hwalk)]
        exact makeOne_of_walkable hr hwalk (h.steps_eq ▸ hpass)
      · have hlength : front.length ≤ count := by
          rw [List.length_append, List.length_singleton] at hcount
          omega
        have hparents := ih hends hlength (route_of_parent hends hbegins ⟨r, hr⟩) habove
        have hmade := madeAlong_makeChain tree count parent
        obtain ⟨others, hothers⟩ := ancestorsUpTo_eq_cons count parent
        have hthere : Walkable (tree.makeChain (ancestorsUpTo count parent)).1 front := by
          rw [hothers] at hparents ⊢
          have hwalk := walkable_of_makeChain hparents
          rwa [hends.steps_eq] at hwalk
        rw [← hfront] at hthere hwalk habove
        rw [makeChain_of_notFound hne (makeDirectory_of_passable hr habove hwalk), hparents,
          Option.isSome_none, if_neg Bool.false_ne_true]
        exact makeOne_of_walkable hr hthere (h.steps_eq ▸ hpass.made hmade)

theorem not_isDirectory_of_makeOne (hfails : (tree.makeOne path).2 ≠ none) :
    ¬(tree.makeOne path).1.isDirectory path := by
  unfold makeOne at hfails ⊢
  split at hfails
  · exact absurd rfl hfails
  · exact fun hd => hfails (if_pos hd)

theorem not_isDirectory_of_makeChain {count : Nat} (hcount : path.steps.length ≤ count)
    (hfails : (tree.makeChain (ancestorsUpTo count path)).2 ≠ none) :
    ¬(tree.makeChain (ancestorsUpTo count path)).1.isDirectory path := by
  intro hd
  obtain ⟨r, hr⟩ := exists_route_of_isDirectory hd
  obtain ⟨-, -, hrelative, -, -⟩ := route_cases hr
  have hwalk := (isDirectory_iff_walkable hr).mp hd
  rcases List.eq_nil_or_concat' path.steps with hnil | ⟨front, last, hsteps⟩
  · obtain ⟨others, hothers⟩ := ancestorsUpTo_eq_cons count path
    rw [hothers] at hfails
    exact hfails (makeChain_of_nil ⟨hrelative, hnil, nofun⟩ (fun _ => ⟨r, hr⟩) others)
  · rw [hsteps] at hwalk
    rw [hsteps, List.length_append, List.length_singleton] at hcount
    obtain ⟨count, rfl⟩ := Nat.exists_eq_add_of_le' (Nat.le_of_add_left_le hcount)
    obtain ⟨parent, hparent, hends, hbegins⟩ := Path.parent?_of_steps hrelative hsteps
    rw [ancestorsUpTo_of_parent count hparent] at hfails hd hwalk
    rcases makeChain_cases tree path (ancestorsUpTo count parent) with
      ⟨-, hchain⟩ | ⟨-, -, hchain⟩ | ⟨-, -, hstops, hchain⟩ | ⟨-, -, -, hchain⟩
    · rw [hchain] at hfails
      exact hfails rfl
    · rw [hchain] at hfails hd
      exact not_isDirectory_of_makeOne hfails hd
    · -- what could not be made above is not there, so nothing is below it
      rw [hchain] at hwalk
      have habove := (walkable_concat_iff.mp hwalk).1.passable (grows_makeChain _)
      exact hstops (makeChain_of_passable count hends (Nat.le_of_add_le_add_right hcount)
        (route_of_parent hends hbegins ⟨r, hr⟩) habove)
    · rw [hchain] at hfails hd
      exact not_isDirectory_of_makeOne hfails hd

/-! ## Directories and texts -/

theorem length_le_names (path : Path) : path.steps.length ≤ path.names.length + 1 :=
  (List.length_filterMap_le _ _).trans (Nat.le_succ _)

/-- A directory that could not be made is not there, whatever was made on the way to it. -/
theorem not_isDirectory_of_makeDirectories (hfails : (tree.makeDirectories path).2 ≠ none) :
    ¬(tree.makeDirectories path).1.isDirectory path :=
  not_isDirectory_of_makeChain (length_le_names path) hfails

/-- Making a directory changes nothing but what its path comes by, where there was nothing. -/
theorem madeAlong_makeDirectories (tree : FileTree) (path : Path) :
    MadeAlong path.steps tree (tree.makeDirectories path).1 := madeAlong_makeChain tree _ path

/-- A directory that is there is left as it is. -/
theorem makeDirectories_of_isDirectory (h : tree.isDirectory path) :
    tree.makeDirectories path = (tree, none) := by
  obtain ⟨r, hr⟩ := exists_route_of_isDirectory h
  have hwalk := (isDirectory_iff_walkable hr).mp h
  rw [steps_of_route hr] at hwalk
  have hfound := makeDirectory_of_walkable hr (hwalk.of_prefix (List.prefix_append _ _))
  obtain ⟨others, hothers⟩ := ancestorsUpTo_eq_cons (path.names.length + 1) path
  rw [makeDirectories, Path.ancestors, hothers,
    makeChain_of_ne_notFound (ne_nil_of_isDirectory h) hfound]
  exact Prod.ext (makeOne_fst_of_isDirectory h) (makeOne_of_isDirectory h)

/-- Where a directory is there, or its path never goes up, nothing is made below it. -/
theorem find?_below_of_makeDirectories (h : tree.isDirectory path ∨ .up ∉ path.steps) {below : Location}
    (hbelow : below ≠ []) : (tree.makeDirectories path).1.find? (path.resolve ++ below) =
      tree.find? (path.resolve ++ below) := by
  rcases h with hd | hdown
  · rw [makeDirectories_of_isDirectory hd]
  · refine (madeAlong_makeDirectories tree path _).resolve_right fun ⟨hway, _⟩ => hbelow ?_
    have habove : path.resolve ++ below <+: path.resolve ++ [] := by
      rw [List.append_nil]
      exact Path.resolve_eq_steps path ▸ hway.prefix_end hdown
    exact List.prefix_nil.mp ((List.prefix_append_right_inj _).mp habove)

section
variable (h : Ends path way)
include h

theorem walkable_makeDirectories (hdone : (tree.makeDirectories path).2 = none) :
    Walkable (tree.makeDirectories path).1 way := by
  unfold makeDirectories Path.ancestors at hdone ⊢
  obtain ⟨others, hothers⟩ := ancestorsUpTo_eq_cons (path.names.length + 1) path
  rw [hothers] at hdone ⊢
  have hwalk := walkable_of_makeChain hdone
  rwa [h.steps_eq] at hwalk

/-- Directories can be made along a way exactly if nothing is in it. -/
theorem makeDirectories_eq_none_iff (hroute : path ≠ [] → ∃ r, route path = .ok r) :
    (tree.makeDirectories path).2 = none ↔ Passable tree way := by
  constructor
  · exact fun hdone => (walkable_makeDirectories h hdone).passable (grows_makeChain _)
  · refine fun hpass => makeChain_of_passable _ h ?_ hroute hpass
    rw [← h.steps_eq]
    exact length_le_names path

end

end DocTools.FileTree
