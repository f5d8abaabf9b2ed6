import DocTools.Proofs.FileTree.Passage

/-! # Paths that a text can be saved under

Whether a text can be saved under a path is settled by the tree and the path alone, for every path,
dots included. The main statements: `exists_write_iff_fillable` and `save_eq_none_iff_writable`, which
say when a write and a save succeed, and `find?_of_save_along`, which says what a save changes. -/
namespace DocTools.FileTree
set_option autoImplicit false

open DocTools.Path (Component Ends resolve)

variable {tree before after : FileTree} {path : Path} {front : List Component} {last : Text}

/-- Nothing keeps a text from being saved under a path: its last step is a name down, the directories
above can be made, and its place is neither a directory nor one that is made on the way. -/
structure WritableAt (tree : FileTree) (path : Path) (front : List Component) (last : Text) :
    Prop where
  ends : Ends path (front ++ [.name last])
  nul_not_mem : '\x00' ∉ path
  size_le : Utf8.size path ≤ longestPath
  no_slash : path.endsInSlash = false
  short : Utf8.size last ≤ longestName
  way : Passable tree front
  place : tree.find? (resolve path) ≠ some .directory
  aside : ¬ComesBy front (resolve path)

def Writable (tree : FileTree) (path : Path) : Prop := ∃ front last, WritableAt tree path front last

/-- Nothing keeps a text from being written to a path as it is: its last step is a name down, the
directories above are there, and its place is no directory. -/
structure FillableAt (tree : FileTree) (path : Path) (front : List Component) (last : Text) :
    Prop where
  ends : Ends path (front ++ [.name last])
  nul_not_mem : '\x00' ∉ path
  size_le : Utf8.size path ≤ longestPath
  no_slash : path.endsInSlash = false
  short : Utf8.size last ≤ longestName
  way : Walkable tree front
  place : tree.find? (resolve path) ≠ some .directory

def Fillable (tree : FileTree) (path : Path) : Prop := ∃ front last, FillableAt tree path front last

/-- The last step and those before it are settled by the path. -/
theorem writable_iff_of_ends (h : Ends path (front ++ [.name last])) :
    tree.Writable path ↔ WritableAt tree path front last := by
  refine ⟨?_, fun hat => ⟨front, last, hat⟩⟩
  rintro ⟨front', last', hat⟩
  obtain ⟨rfl, hlast⟩ := List.append_inj' (hat.ends.steps_eq.symm.trans h.steps_eq) rfl
  obtain rfl := Component.name.inj (List.singleton_inj.mp hlast)
  exact hat

/-! ## The directory of a path -/

section
variable {parent : Path} (h : path.parent? = some parent)
include h

theorem makeParent_fst : (tree.makeParent path).1 = (tree.makeDirectories parent).1 := by
  unfold makeParent
  rw [h]
  dsimp only
  split
  · rename_i hgrown
    rw [hgrown]
  · rename_i hgrown
    rw [hgrown]

theorem makeParent_snd : (tree.makeParent path).2 = none ↔ (tree.makeDirectories parent).2 = none := by
  unfold makeParent
  rw [h]
  dsimp only
  split
  · rename_i hgrown
    rw [hgrown]
    exact ⟨fun _ => rfl, fun _ => rfl⟩
  · rename_i hgrown
    rw [hgrown]
    exact ⟨fun hc => (nomatch hc), fun hc => nomatch hc⟩

end

section
variable {c : Component} (h : Ends path (front ++ [c]))
include h

theorem madeAlong_makeParent (tree : FileTree) : MadeAlong front tree (tree.makeParent path).1 := by
  obtain ⟨parent, hparent, hends, -⟩ := h.parent?
  rw [makeParent_fst hparent, ← hends.steps_eq]
  exact madeAlong_makeDirectories tree parent

theorem walkable_makeParent (hdone : (tree.makeParent path).2 = none) :
    Walkable (tree.makeParent path).1 front := by
  obtain ⟨parent, hparent, hends, -⟩ := h.parent?
  rw [makeParent_fst hparent]
  exact walkable_makeDirectories hends ((makeParent_snd hparent).mp hdone)

theorem makeParent_eq_none_iff (hroute : ∃ r, route path = .ok r) :
    (tree.makeParent path).2 = none ↔ Passable tree front := by
  obtain ⟨parent, hparent, hends, hbegins⟩ := h.parent?
  rw [makeParent_snd hparent, makeDirectories_eq_none_iff hends (route_of_parent hends hbegins hroute)]

end

/-! ## Writing -/

/-- The names on a route are those above the last step. -/
theorem way_of_ends {c : Component} (h : Ends path (front ++ [c])) {r : Route} (hr : route path = .ok r) :
    r.last = c.text ∧ r.way.filterMap Component.ofName? = front := by
  obtain ⟨names, hnames, hsteps⟩ := h.names_eq
  rw [(names_of_route hr).2] at hnames
  obtain ⟨hway, hlast⟩ := List.append_inj' hnames rfl
  exact ⟨List.singleton_inj.mp hlast, by rw [hway, hsteps]⟩

theorem exists_route_of_ends {c : Component} (h : Ends path (front ++ [c])) (hnul : '\x00' ∉ path)
    (hsize : Utf8.size path ≤ longestPath) : ∃ r, route path = .ok r ∧ r.slash = path.endsInSlash := by
  obtain ⟨r, hr⟩ :=
    exists_route_iff.mpr ⟨hnul, hsize, h.relative, Path.names_ne_nil h.ne_nil h.relative⟩
  obtain ⟨-, -, -, -, hslash⟩ := route_cases hr
  exact ⟨r, hr, hslash⟩

theorem write_of_walkable (h : Ends path (front ++ [.name last])) {r : Route} (hr : route path = .ok r)
    (hslash : r.slash = false) (hsize : Utf8.size last ≤ longestName) (hwalk : Walkable tree front)
    (hplace : tree.find? (resolve path) ≠ some .directory) (content : Content) :
    ∃ written, tree.write path content = .ok written := by
  obtain ⟨hlast, hway⟩ := way_of_ends h hr
  have hname := h.isStep (.name last) (List.mem_append_right _ (List.mem_singleton_self _))
  rw [← hway] at hwalk
  obtain ⟨dir, hdir⟩ := exists_enterAll_iff.mpr hwalk
  have hat : dir.1 ++ [last] = resolve path := by
    rw [location_eq_placeOf hdir, hway, h.resolve_eq]
    exact (placeOf_concat front (.name last)).symm
  have hdots : ¬(r.slash ∨ r.last = ['.'] ∨ r.last = ['.', '.']) := by
    rw [hslash, hlast]
    rintro (hc | hc | hc)
    · cases hc
    · rw [Path.IsStep, hc] at hname
      cases hname
    · rw [Path.IsStep, hc] at hname
      cases hname
  unfold write
  rw [hr]
  simp only [bind, Except.bind, attach_of_ok hdir, dif_neg hdots]
  rw [dif_neg (by rw [hlast]; exact Nat.not_lt_of_le hsize), dif_neg (by rw [hlast]; exact hat ▸ hplace)]
  exact ⟨_, rfl⟩

/-- A path that is written to ends with a name down. -/
theorem exists_ends_of_write {content : Content} (h : tree.write path content = .ok after) :
    ∃ front last, Ends path (front ++ [.name last]) := by
  obtain ⟨r, dir, hr, -, -, hname, -⟩ := exists_of_write_eq_ok h
  obtain ⟨-, -, hrelative, hnames, -⟩ := route_cases hr
  have hsteps := steps_of_route hr
  rw [Path.ofName?_of_isEntryName hname, Option.toList_some] at hsteps
  refine ⟨_, r.last, ⟨hrelative, hsteps, fun c hc => ?_⟩⟩
  rw [List.getLast?_concat] at hc
  obtain rfl := Option.some.inj hc
  rw [hnames, List.getLast?_concat]
  rfl

/-- A write succeeds exactly if nothing keeps a text from being written to the path, whatever is
written. -/
theorem exists_write_iff_fillable (tree : FileTree) (path : Path) (content : Content) :
    (∃ written, tree.write path content = .ok written) ↔ tree.Fillable path := by
  constructor
  · rintro ⟨written, hwrite⟩
    obtain ⟨front, last, hends⟩ := exists_ends_of_write hwrite
    obtain ⟨r, dir, hr, hdir, hslash, hname, hnot, -⟩ := exists_of_write_eq_ok hwrite
    obtain ⟨hnul, hsize, -, -, hend⟩ := route_cases hr
    obtain ⟨hlast, hway⟩ := way_of_ends hends hr
    obtain rfl : r.last = last := hlast
    have hstep := step_name dir (Path.ofName?_of_isEntryName hname) hname.size_le
    rw [location_eq_resolve hr hdir hstep] at hnot
    exact ⟨front, r.last, hends, hnul, hsize, hend ▸ hslash, hname.size_le,
      hway ▸ exists_enterAll_iff.mp ⟨dir, hdir⟩, hnot⟩
  · rintro ⟨front, last, h⟩
    obtain ⟨r, hr, hslash⟩ := exists_route_of_ends h.ends h.nul_not_mem h.size_le
    exact write_of_walkable h.ends hr (hslash.trans h.no_slash) h.short h.way h.place content

theorem fillable_of_write {content : Content} (h : tree.write path content = .ok after) :
    tree.Fillable path :=
  (exists_write_iff_fillable tree path content).mp ⟨after, h⟩

theorem not_fillable_of_write {content : Content} {e : IoError}
    (h : tree.write path content = .error e) : ¬tree.Fillable path := by
  intro hf
  obtain ⟨written, hwrite⟩ := (exists_write_iff_fillable tree path content).mpr hf
  cases h.symm.trans hwrite

instance (tree : FileTree) (path : Path) : Decidable (tree.Fillable path) :=
  match h : tree.write path (.text []) with
  | .ok written => isTrue ((exists_write_iff_fillable tree path _).mp ⟨written, h⟩)
  | .error _ => isFalse fun hc => by
    obtain ⟨written, hwrite⟩ := (exists_write_iff_fillable tree path (.text [])).mpr hc
    cases h.symm.trans hwrite

/-- Whether a text can be written depends on the directories of a tree alone. -/
theorem Fillable.of_directories (h : before.Fillable path)
    (hsame : ∀ place, after.find? place = some .directory ↔ before.find? place = some .directory) :
    after.Fillable path := by
  obtain ⟨front, last, hat⟩ := h
  exact ⟨front, last, { hat with
    way := ⟨hat.way.inside, fun place hplace => (hsame place).mpr (hat.way.there place hplace)⟩
    place := fun hd => hat.place ((hsame _).mp hd) }⟩

/-- What can be written below a directory is written into one that is there. -/
theorem Fillable.isDirectory {dir below : Path} (h : tree.Fillable (dir.join below)) (hdir : dir ≠ []) :
    tree.isDirectory dir := by
  obtain ⟨front, last, hat⟩ := h
  have hbelow : below.isAbsolute = false := by
    cases habs : below.isAbsolute with
    | false => rfl
    | true =>
      have hrelative := hat.ends.relative
      rw [Path.join, habs, Bool.true_or, if_pos rfl, habs] at hrelative
      cases hrelative
  have hne : below ≠ [] := by
    rintro rfl
    have hslash := hat.no_slash
    rw [Path.endsInSlash_join_nil hdir] at hslash
    cases hslash
  have hrelative := hat.ends.relative
  rw [Path.isAbsolute_join hdir hbelow] at hrelative
  obtain ⟨r, hr⟩ : ∃ r, route dir = .ok r := by
    obtain ⟨rest, hrest⟩ := Path.prefix_join dir hbelow
    have hsize := hat.size_le
    rw [← hrest, Utf8.size_append] at hsize
    exact exists_route_iff.mpr ⟨fun hmem => hat.nul_not_mem (hrest ▸ List.mem_append_left _ hmem),
      Nat.le_of_add_right_le hsize, hrelative, Path.names_ne_nil hdir hrelative⟩
  obtain ⟨before, hbefore, hfront⟩ := hat.ends.names_eq
  obtain ⟨others, final, hnames⟩ := (List.eq_nil_or_concat' below.names).resolve_left
    (Path.names_ne_nil hne hbelow)
  rw [Path.names_join hdir hbelow, hnames, ← List.append_assoc] at hbefore
  obtain ⟨rfl, -⟩ := List.append_inj' hbefore rfl
  rw [List.filterMap_append] at hfront
  exact (isDirectory_iff_walkable hr).mpr (hat.way.of_prefix ⟨_, hfront⟩)

/-! ## Saving -/

theorem save_eq_none_iff_fillable (text : Text) : (tree.save path text).2 = none ↔
    (tree.makeParent path).2 = none ∧ (tree.makeParent path).1.Fillable path := by
  rw [← exists_write_iff_fillable _ _ (.text text)]
  unfold save
  cases hparent : tree.makeParent path with
  | mk grown failure =>
    cases failure with
    | some f => exact ⟨fun hc => (nomatch hc), fun hc => nomatch hc.1⟩
    | none =>
      dsimp only
      cases hwrite : grown.write path (.text text) with
      | error e => exact ⟨fun hc => (nomatch hc), fun ⟨_, _, hc⟩ => nomatch hc⟩
      | ok written => exact ⟨fun _ => ⟨rfl, written, rfl⟩, fun _ => rfl⟩

/-- A save succeeds exactly if nothing keeps a text from being saved under the path, whatever the text
is. -/
theorem save_eq_none_iff_writable (tree : FileTree) (path : Path) (text : Text) :
    (tree.save path text).2 = none ↔ tree.Writable path := by
  rw [save_eq_none_iff_fillable]
  constructor
  · rintro ⟨hparent, front, last, h⟩
    refine ⟨front, last, h.ends, h.nul_not_mem, h.size_le, h.no_slash, h.short,
      h.way.passable (grows_makeParent path), fun hd => ?_, fun hway => h.place (h.way.there _ hway)⟩
    exact h.place ((grows_makeParent path).directory _ hd)
  · rintro ⟨front, last, h⟩
    obtain ⟨r, hr, -⟩ := exists_route_of_ends h.ends h.nul_not_mem h.size_le
    have hparent := (makeParent_eq_none_iff h.ends ⟨r, hr⟩).mpr h.way
    refine ⟨hparent, front, last, h.ends, h.nul_not_mem, h.size_le, h.no_slash, h.short,
      walkable_makeParent h.ends hparent, ?_⟩
    rw [(madeAlong_makeParent h.ends tree _).resolve_right fun hmade => h.aside hmade.1]
    exact h.place

/-- What a save changes: directories are made along the way, and if it succeeds the text is put in its
place. -/
theorem find?_of_save_along {c : Component} (h : Ends path (front ++ [c])) (text : Text)
    (place : Location) :
    (tree.save path text).1.find? place = tree.find? place ∨
      (ComesBy front place ∧ tree.find? place = none ∧
        (tree.save path text).1.find? place = some .directory) ∨
      ((tree.save path text).2 = none ∧ place = resolve path ∧
        (tree.save path text).1.find? place = some (.file (.text text))) := by
  have hmade := madeAlong_makeParent h tree
  unfold save
  cases hparent : tree.makeParent path with
  | mk grown failure =>
    rw [hparent] at hmade
    cases failure with
    | some f => exact (hmade place).imp_right .inl
    | none =>
      dsimp only
      cases hwrite : grown.write path (.text text) with
      | error e => exact (hmade place).imp_right .inl
      | ok written =>
        dsimp only
        rw [find?_of_write hwrite]
        by_cases hplace : place = resolve path
        · rw [if_pos hplace]
          exact .inr (.inr ⟨rfl, hplace, rfl⟩)
        · rw [if_neg hplace]
          exact (hmade place).imp_right .inl

end DocTools.FileTree
