import DocTools.Except
import DocTools.Failure

/-! # Trees that grow

Writing and making directories keep what a tree has: a directory stays one, and a file stays a file,
though its content may change. The main statements: `grows_save` for a page written with the
directories it lacks, and `Grows.hasFile`, by which a path that led to a file does so afterwards. -/
namespace DocTools.FileTree
set_option autoImplicit false

variable {tree before middle after : FileTree}

structure Grows (before after : FileTree) : Prop where
  directory : ∀ location, before.find? location = some .directory →
    after.find? location = some .directory
  file : ∀ location content, before.find? location = some (.file content) →
    ∃ content', after.find? location = some (.file content')

theorem Grows.refl (tree : FileTree) : Grows tree tree := ⟨fun _ h => h, fun _ c h => ⟨c, h⟩⟩

theorem Grows.trans (h : Grows before middle) (h' : Grows middle after) : Grows before after where
  directory location hd := h'.directory location (h.directory location hd)
  file location content hf := by
    obtain ⟨content', hf'⟩ := h.file location content hf
    exact h'.file location content' hf'

/-! ## What the operations do -/

/-- What a successful write does: the path leads to a place in a directory, where the file is put. -/
theorem exists_of_write_eq_ok {path : Path} {content : Content}
    (h : tree.write path content = .ok after) :
    ∃ r dir, route path = .ok r ∧ tree.enterAll tree.root r.way = .ok dir ∧ r.slash = false ∧
      IsEntryName r.last ∧ tree.find? (dir.1 ++ [r.last]) ≠ some .directory ∧
        ∀ location, after.find? location =
          if location = dir.1 ++ [r.last] then some (.file content) else tree.find? location := by
  unfold write at h
  obtain ⟨r, hr, h⟩ := bind_eq_ok.mp h
  obtain ⟨⟨dir, hdir⟩, -, h⟩ := bind_eq_ok.mp h
  dsimp only at h
  split at h
  · cases h
  · rename_i hdots
    split at h
    · cases h
    · rename_i hsize
      split at h
      · cases h
      · rename_i hnot
        rw [not_or, not_or, Bool.not_eq_true] at hdots
        cases h
        exact ⟨r, dir, hr, hdir, hdots.1, r.isEntryName_last hdots.2.1 hdots.2.2 hsize, hnot,
          fun _ => find?_put ..⟩

theorem exists_of_makeDirectory_eq_ok {path : Path} (h : tree.makeDirectory path = .ok after) :
    ∃ r dir, route path = .ok r ∧ tree.enterAll tree.root r.way = .ok dir ∧ IsEntryName r.last ∧
      tree.find? (dir.1 ++ [r.last]) = none ∧
        ∀ location, after.find? location =
          if location = dir.1 ++ [r.last] then some .directory else tree.find? location := by
  unfold makeDirectory at h
  obtain ⟨r, hr, h⟩ := bind_eq_ok.mp h
  obtain ⟨⟨dir, hdir⟩, -, h⟩ := bind_eq_ok.mp h
  dsimp only at h
  split at h
  · cases h
  · rename_i hdots
    split at h
    · cases h
    · rename_i hsize
      split at h
      · cases h
      · rename_i hnone
        rw [not_or] at hdots
        cases h
        exact ⟨r, dir, hr, hdir, r.isEntryName_last hdots.1 hdots.2 hsize,
          Option.not_isSome_iff_eq_none.mp hnone, fun _ => find?_put ..⟩

theorem grows_write {path : Path} {content : Content} (h : tree.write path content = .ok after) :
    Grows tree after := by
  obtain ⟨r, dir, -, -, -, -, hnot, hfind⟩ := exists_of_write_eq_ok h
  constructor
  · intro location hd
    rw [hfind, if_neg]
    · exact hd
    · rintro rfl
      exact hnot hd
  · intro location content' hf
    rw [hfind]
    by_cases hloc : location = dir.1 ++ [r.last]
    · exact ⟨content, if_pos hloc⟩
    · exact ⟨content', by rw [if_neg hloc, hf]⟩

theorem grows_makeDirectory {path : Path} (h : tree.makeDirectory path = .ok after) :
    Grows tree after := by
  obtain ⟨r, dir, -, -, -, hnone, hfind⟩ := exists_of_makeDirectory_eq_ok h
  have hother : ∀ location entry, tree.find? location = some entry →
      location ≠ dir.1 ++ [r.last] := by
    rintro location entry hsome rfl
    rw [hnone] at hsome
    cases hsome
  constructor
  · intro location hd
    rw [hfind, if_neg (hother _ _ hd), hd]
  · intro location content hf
    exact ⟨content, by rw [hfind, if_neg (hother _ _ hf), hf]⟩

theorem grows_makeChain (paths : List Path) : Grows tree (tree.makeChain paths).1 := by
  induction paths with
  | nil => exact .refl tree
  | cons path parents ih =>
    rw [makeChain]
    -- made at once, or after its parents, or not at all
    split
    · exact .refl tree
    · split
      · rename_i made hmade
        exact grows_makeDirectory hmade
      · split
        · rename_i grown e hgrown
          rw [hgrown] at ih
          exact ih
        · rename_i grown hgrown
          rw [hgrown] at ih
          split
          · rename_i made hmade
            exact ih.trans (grows_makeDirectory hmade)
          · exact ih
      · exact .refl tree

theorem grows_makeParent (path : Path) : Grows tree (tree.makeParent path).1 := by
  unfold makeParent
  split
  · exact .refl tree
  · rename_i parent _
    have hmade : Grows tree (tree.makeDirectories parent).1 := grows_makeChain _
    split
    · rename_i grown hgrown
      rwa [hgrown] at hmade
    · rename_i grown e hgrown
      rwa [hgrown] at hmade

theorem grows_save (path : Path) (text : Text) : Grows tree (tree.save path text).1 := by
  have hparent : Grows tree (tree.makeParent path).1 := grows_makeParent path
  unfold save
  split
  · rename_i grown failure hgrown
    rwa [hgrown] at hparent
  · rename_i grown hgrown
    rw [hgrown] at hparent
    split
    · rename_i written hwritten
      exact hparent.trans (grows_write hwritten)
    · exact hparent

/-! ## Following a path in a tree that has grown -/

def Grows.lift (h : Grows before after) (dir : before.Directory) : after.Directory :=
  ⟨dir.1, h.directory dir.1 dir.2⟩

theorem Grows.enterAll (h : Grows before after) {names : List Text} {dir last : before.Directory}
    (hlast : before.enterAll dir names = .ok last) :
    after.enterAll (h.lift dir) names = .ok (h.lift last) := by
  induction names generalizing dir with
  | nil =>
    cases hlast
    rfl
  | cons name names ih =>
    obtain ⟨next, hnext, hlast⟩ := bind_eq_ok.mp hlast
    have hbefore : before.step dir name = .ok next.1 := enter_eq_ok_iff.mp hnext
    have hstep : after.enter (h.lift dir) name = .ok (h.lift next) := enter_eq_ok_iff.mpr hbefore
    exact bind_eq_ok.mpr ⟨h.lift next, hstep, ih hlast⟩

def HasFile (tree : FileTree) (path : Path) : Prop :=
  ∃ location content, tree.locate path = .ok (location, .file content)

theorem locate_eq_file_iff {path : Path} {location : Location} {content : Content} :
    tree.locate path = .ok (location, .file content) ↔
      ∃ r dir, route path = .ok r ∧ tree.enterAll tree.root r.way = .ok dir ∧
        tree.step dir r.last = .ok location ∧ r.slash = false ∧
          tree.find? location = some (.file content) := by
  unfold locate
  constructor
  · intro h
    obtain ⟨r, hr, h⟩ := bind_eq_ok.mp h
    obtain ⟨dir, hdir, h⟩ := bind_eq_ok.mp h
    obtain ⟨place, hstep, h⟩ := bind_eq_ok.mp h
    split at h
    · cases h
    · rename_i hfind
      split at h
      · cases h
      · rename_i hslash
        cases h
        exact ⟨r, dir, hr, hdir, hstep, Bool.eq_false_iff.mpr hslash, hfind⟩
    · cases h
  · rintro ⟨r, dir, hr, hdir, hstep, hslash, hfind⟩
    refine bind_eq_ok.mpr ⟨r, hr, bind_eq_ok.mpr ⟨dir, hdir, bind_eq_ok.mpr ⟨location, hstep, ?_⟩⟩⟩
    simp only [hfind, hslash]
    rfl

theorem hasFile_iff {path : Path} : tree.HasFile path ↔
    ∃ r dir location content, route path = .ok r ∧ tree.enterAll tree.root r.way = .ok dir ∧
      tree.step dir r.last = .ok location ∧ r.slash = false ∧
        tree.find? location = some (.file content) := by
  unfold HasFile
  constructor
  · rintro ⟨location, content, h⟩
    obtain ⟨r, dir, h⟩ := locate_eq_file_iff.mp h
    exact ⟨r, dir, location, content, h⟩
  · rintro ⟨r, dir, location, content, h⟩
    exact ⟨location, content, locate_eq_file_iff.mpr ⟨r, dir, h⟩⟩

theorem Grows.hasFile (h : Grows before after) {path : Path} (hpath : before.HasFile path) :
    after.HasFile path := by
  obtain ⟨r, dir, location, content, hr, hdir, hstep, hslash, hfind⟩ := hasFile_iff.mp hpath
  obtain ⟨content', hfind'⟩ := h.file location content hfind
  exact hasFile_iff.mpr ⟨r, h.lift dir, location, content', hr, h.enterAll hdir, hstep, hslash, hfind'⟩

theorem hasFile_of_write {path : Path} {content : Content}
    (h : tree.write path content = .ok after) : after.HasFile path := by
  have hgrows := grows_write h
  obtain ⟨r, dir, hr, hdir, hslash, hname, -, hfind⟩ := exists_of_write_eq_ok h
  have hstep : after.step (hgrows.lift dir) r.last = .ok (dir.1 ++ [r.last]) := by
    rw [step, if_neg hname.ne_here, if_neg hname.ne_up, if_neg (Nat.not_lt_of_le hname.size_le)]
    rfl
  exact hasFile_iff.mpr ⟨r, hgrows.lift dir, _, content, hr, hgrows.enterAll hdir, hstep, hslash,
    by rw [hfind, if_pos rfl]⟩

/-- What a successful save does: the directory is made, and then the text is written. -/
theorem exists_of_save {path : Path} {text : Text} (h : tree.save path text = (after, none)) :
    ∃ grown, tree.makeParent path = (grown, none) ∧ grown.write path (.text text) = .ok after := by
  unfold save at h
  cases hm : tree.makeParent path with
  | mk grown failure =>
    rw [hm] at h
    cases failure with
    | some e => cases h
    | none =>
      cases hw : grown.write path (.text text) with
      | error e =>
        simp only [hw] at h
        cases h
      | ok written =>
        simp only [hw] at h
        cases h
        exact ⟨grown, rfl, hw⟩

theorem hasFile_of_save {path : Path} {text : Text} (h : tree.save path text = (after, none)) :
    after.HasFile path := by
  obtain ⟨grown, -, hwrite⟩ := exists_of_save h
  exact hasFile_of_write hwrite

end DocTools.FileTree
