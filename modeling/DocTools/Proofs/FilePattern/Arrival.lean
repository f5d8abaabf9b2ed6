import DocTools.Proofs.FilePattern.Sound
import DocTools.Proofs.FileTree.Entering
import DocTools.Proofs.FileTree.Removal

/-! # Where a walk along a directory arrives

The walk along a directory that is there arrives at the directory, with one exception: behind the dots
at the beginning the walk has not left the top of the tree, and from there the empty name between two
slashes leads nowhere. The main statements: `exists_arrives_iff`, which says so for every spelling of a
directory, `IsEntered.read_pathTo` for the files in it, and `walk_of_directories`, by which a walk
depends on the directories of a tree alone. -/
namespace DocTools.FilePattern
set_option autoImplicit false

open DocTools.Path (resolve)

variable {tree : FileTree} {spot next last : Spot} {dir : Path} {name piece : Text} {pieces : List Text}

/-! ## Directories that are lost -/

/-- The first piece that is not `.` is empty. -/
def IsLost (pieces : List Text) : Prop := (pieces.dropWhile fun piece => piece = ['.']).head? = some []

/-- A directory is spelled with more than one slash behind the dots at its beginning. -/
def LosesWay (dir : Path) : Prop := IsLost (Text.splitOn '/' (trimEnd dir))

instance (dir : Path) : Decidable (LosesWay dir) := inferInstanceAs (Decidable (_ = _))

theorem isLost_here : IsLost (['.'] :: pieces) ↔ IsLost pieces := by
  simp only [IsLost, List.dropWhile_cons, decide_true, if_true]

theorem isLost_cons_iff (h : piece ≠ ['.']) : IsLost (piece :: pieces) ↔ piece = [] := by
  simp only [IsLost, List.dropWhile_cons, decide_eq_true_iff, if_neg h, List.head?_cons,
    Option.some_inj]

theorem AtTop.not_isLost (h : AtTop spot) (hwalk : FilePattern.walk tree spot pieces = some last) :
    ¬IsLost pieces := by
  induction pieces generalizing spot with
  | nil => exact fun hlost => nomatch hlost
  | cons piece pieces ih =>
    rw [walk_cons, Option.bind_eq_some_iff] at hwalk
    obtain ⟨next, hnext, hwalk⟩ := hwalk
    by_cases hhere : piece = ['.']
    · subst hhere
      rw [isLost_here]
      exact ih (h.of_here hnext) hwalk
    · rw [isLost_cons_iff hhere]
      exact (h.ne_of_lookUp? hnext).1

/-! ## Steps from directories -/

/-- Only `.` from `.` is `.` again. -/
theorem Sound.atDot_of_lookUp? (h : Sound tree spot) (hnext : spot.lookUp? tree name = some next)
    (hdot : next.AtDot) : spot.AtDot ∧ name = ['.'] := by
  have hslash := slash_not_mem_of_lookUp? hnext
  have hcomponents : next.path.components = [.here] := hdot
  rw [(path_location_of_lookUp? hnext).1, components_pathTo h hslash] at hcomponents
  by_cases hat : spot.AtDot
  · rw [if_pos hat] at hcomponents
    refine ⟨hat, ?_⟩
    obtain ⟨-, ⟨rfl, -⟩ | ⟨rfl, -, -⟩ | ⟨rfl, -, -⟩ | ⟨hname, -⟩⟩ := Spot.lookUp?_cases hnext
    · rfl
    · exact absurd hcomponents (by decide)
    · exact absurd hcomponents (by decide)
    · have hhead : (Path.names name).head? ≠ some ['.'] := by
        rw [Path.names_of_isEntryName hname]
        exact fun hc => hname.ne_here (Option.some.inj hc)
      rw [Path.components_of_head (Path.isAbsolute_of_slash_not_mem hslash) hhead] at hcomponents
      exact absurd (hcomponents ▸ List.mem_cons_self) (here_not_mem_filterMap _)
  · rw [if_neg hat] at hcomponents
    rcases List.append_eq_singleton_iff.mp hcomponents with ⟨-, hmore⟩ | ⟨hfront, -⟩
    · exact absurd (hmore ▸ List.mem_cons_self) (here_not_mem_filterMap _)
    · exact absurd hfront hat

theorem lookUp?_nil (tree : FileTree) (hd : spot.entry = .directory) (hdot : ¬spot.AtDot)
    (h : Sound tree spot) :
    spot.lookUp? tree [] = some ⟨spot.pathTo [], spot.location, .directory⟩ := by
  unfold Spot.lookUp?
  dsimp only
  rw [hd, if_neg (by decide), if_neg (by decide), if_neg (by decide), if_pos rfl,
    if_neg ((pathTo_nil_ne_nil_iff h).mpr hdot)]

/-- A name that enters a directory of the tree is looked up to the same place. -/
theorem lookUp?_of_enter (hd : spot.entry = .directory) {here there : tree.Directory}
    (hat : here.1 = spot.location) (hne : name ≠ []) (henter : tree.enter here name = .ok there) :
    spot.lookUp? tree name = some ⟨spot.pathTo name, there.1, .directory⟩ := by
  have hstep := FileTree.enter_eq_ok_iff.mp henter
  have hthere := there.2
  unfold FileTree.step at hstep
  unfold Spot.lookUp?
  dsimp only
  rw [hd, if_neg (by decide), ← hat]
  by_cases hhere : name = ['.']
  · rw [if_pos hhere] at hstep ⊢
    rw [Except.ok.inj hstep]
  · rw [if_neg hhere] at hstep ⊢
    by_cases hup : name = ['.', '.']
    · rw [if_pos hup] at hstep ⊢
      by_cases hroot : here.1 = []
      · rw [if_pos hroot] at hstep
        cases hstep
      · rw [if_neg hroot] at hstep ⊢
        rw [Except.ok.inj hstep]
    · rw [if_neg hup] at hstep ⊢
      split at hstep
      · cases hstep
      · rw [if_neg hne, Except.ok.inj hstep, hthere]
        rfl

/-! ## Arriving -/

/-- A walk along pieces whose names can be entered arrives, unless it is lost at the top. -/
theorem Sound.exists_walk (h : Sound tree spot) (hd : spot.entry = .directory)
    (hway : spot.AtDot → ¬IsLost pieces) {here goal : tree.Directory} (hat : here.1 = spot.location)
    (hgoal : tree.enterAll here (pieces.filter fun piece => !piece.isEmpty) = .ok goal) :
    ∃ last, walk tree spot pieces = some last ∧ last.entry = .directory ∧ last.location = goal.1 := by
  induction pieces generalizing spot here with
  | nil =>
    cases hgoal
    exact ⟨spot, rfl, hd, hat.symm⟩
  | cons piece pieces ih =>
    have hfirst : ∃ next there, spot.lookUp? tree piece = some next ∧ next.entry = .directory ∧
        there.1 = next.location ∧
        tree.enterAll there (pieces.filter fun piece => !piece.isEmpty) = .ok goal := by
      by_cases hnil : piece = []
      · subst hnil
        have hdot : ¬spot.AtDot := fun hdot => hway hdot ((isLost_cons_iff (by decide)).mpr rfl)
        exact ⟨_, here, lookUp?_nil tree hd hdot h, rfl, hat, hgoal⟩
      · rw [List.filter_cons_of_pos (by simpa using hnil)] at hgoal
        obtain ⟨there, henter, hrest⟩ := bind_eq_ok.mp hgoal
        exact ⟨_, there, lookUp?_of_enter hd hat hnil henter, rfl, rfl, hrest⟩
    obtain ⟨next, there, hnext, hd', hat', hrest⟩ := hfirst
    have hway' : next.AtDot → ¬IsLost pieces := by
      intro hdot
      obtain ⟨hspot, rfl⟩ := h.atDot_of_lookUp? hnext hdot
      exact fun hlost => hway hspot (isLost_here.mpr hlost)
    rw [walk_cons, hnext, Option.bind_some]
    exact ih (h.of_lookUp? hnext) hd' hway' hat' hrest

/-- A walk along a directory arrives at a spot where the directory is. -/
structure Arrives (tree : FileTree) (dir : Path) (spot : Spot) : Prop where
  walk_eq : walk tree .top (Text.splitOn '/' (trimEnd dir)) = some spot
  entry_eq : spot.entry = .directory
  location_eq : spot.location = resolve dir

theorem exists_arrives (hd : tree.isDirectory dir) (hway : ¬LosesWay dir) :
    ∃ spot, Arrives tree dir spot := by
  obtain ⟨goal, hgoal, hplace⟩ := FileTree.exists_enterAll_names hd
  rw [names_eq_filter_trimEnd] at hgoal
  obtain ⟨spot, hspot, hentry, hlocation⟩ := sound_top.exists_walk rfl (fun _ => hway) rfl hgoal
  exact ⟨spot, hspot, hentry, hlocation.trans hplace⟩

theorem walk_of_losesWay (tree : FileTree) (hway : LosesWay dir) :
    walk tree .top (Text.splitOn '/' (trimEnd dir)) = none := by
  cases hwalk : walk tree .top (Text.splitOn '/' (trimEnd dir)) with
  | none => rfl
  | some spot => exact absurd hway (atTop_top.not_isLost hwalk)

/-- The walk along a directory that is there arrives exactly if the directory is not lost. -/
theorem exists_arrives_iff (hd : tree.isDirectory dir) :
    (∃ spot, Arrives tree dir spot) ↔ ¬LosesWay dir :=
  ⟨fun ⟨_, h⟩ => atTop_top.not_isLost h.walk_eq, exists_arrives hd⟩

/-! ## Reading what is found -/

/-- The names of a spot's path can be entered and lead to it. -/
def IsEntered (tree : FileTree) (spot : Spot) : Prop :=
  ∃ here : tree.Directory, tree.enterAll tree.root spot.path.names = .ok here ∧ here.1 = spot.location

theorem isEntered_top (tree : FileTree) : IsEntered tree .top := ⟨tree.root, rfl, rfl⟩

theorem isDirectory_of_walk (h : walk tree spot pieces = some last) (hd : last.entry = .directory) :
    spot.entry = .directory := by
  cases pieces with
  | nil =>
    cases h
    exact hd
  | cons piece pieces =>
    rw [walk_cons, Option.bind_eq_some_iff] at h
    obtain ⟨next, hnext, -⟩ := h
    exact (Spot.lookUp?_cases hnext).1

/-- A name that is looked up to a directory is one that can be entered. -/
theorem enterAll_of_lookUp? (hnext : spot.lookUp? tree name = some next)
    (hd : next.entry = .directory) (here : tree.Directory) (hat : here.1 = spot.location) :
    ∃ there, tree.enterAll here (Path.names name) = .ok there ∧ there.1 = next.location := by
  have hone {there : tree.Directory} (hstep : tree.step here name = .ok there.1) :
      tree.enterAll here [name] = .ok there :=
    bind_eq_ok.mpr ⟨there, FileTree.enter_eq_ok_iff.mpr hstep, rfl⟩
  have hhere := here.2
  obtain ⟨-, ⟨rfl, rfl⟩ | ⟨rfl, -, rfl⟩ | ⟨rfl, hne, rfl⟩ | ⟨hname, entry, hfind, rfl⟩⟩ :=
    Spot.lookUp?_cases hnext
  · exact ⟨here, hone rfl, hat⟩
  · exact ⟨here, rfl, hat⟩
  · rw [← hat] at hne
    refine ⟨⟨here.1.dropLast, find?_dropLast hhere⟩, hone ?_, congrArg List.dropLast hat⟩
    rw [FileTree.step, if_neg (by decide), if_pos rfl, if_neg hne]
  · obtain rfl : entry = .directory := hd
    rw [← hat] at hfind
    refine ⟨⟨_, hfind⟩, ?_, congrArg (· ++ [name]) hat⟩
    rw [Path.names_of_isEntryName hname]
    exact hone (FileTree.step_of_find? here hfind)

theorem IsEntered.of_lookUp? (h : IsEntered tree spot) (hs : Sound tree spot)
    (hnext : spot.lookUp? tree name = some next) (hd : next.entry = .directory) :
    IsEntered tree next := by
  unfold IsEntered
  rw [(path_location_of_lookUp? hnext).1]
  by_cases hdot : spot.AtDot
  · rw [Spot.pathTo_of_atDot hdot]
    exact enterAll_of_lookUp? hnext hd tree.root (hs.location_of_atDot hdot).symm
  · obtain ⟨here, hhere, hat⟩ := h
    have habs := Path.isAbsolute_of_slash_not_mem (slash_not_mem_of_lookUp? hnext)
    rw [Spot.pathTo_of_not_atDot hdot, Path.names_join hs.ne_nil habs, FileTree.enterAll_append, hhere]
    exact enterAll_of_lookUp? hnext hd here hat

theorem IsEntered.of_walk (h : IsEntered tree spot) (hs : Sound tree spot)
    (hlast : walk tree spot pieces = some last) (hd : last.entry = .directory) :
    IsEntered tree last := by
  induction pieces generalizing spot with
  | nil =>
    cases hlast
    exact h
  | cons piece pieces ih =>
    rw [walk_cons, Option.bind_eq_some_iff] at hlast
    obtain ⟨next, hnext, hlast⟩ := hlast
    exact ih (h.of_lookUp? hs hnext (isDirectory_of_walk hlast hd)) (hs.of_lookUp? hnext) hlast

theorem endsInSlash_pathTo (spot : Spot) (hne : name ≠ []) (hslash : '/' ∉ name) :
    (spot.pathTo name).endsInSlash = false := by
  have halone : Path.endsInSlash ([] ++ name) = false := Path.endsInSlash_append hne hslash
  unfold Spot.pathTo Path.join
  split
  · exact halone
  · split
    · exact halone
    · split
      · exact Path.endsInSlash_append hne hslash
      · rw [List.append_cons]
        exact Path.endsInSlash_append hne hslash

/-- A file in a directory that was walked to is read by the path that the walk spells. -/
theorem IsEntered.read_pathTo (h : IsEntered tree spot) (hs : Sound tree spot) {content : Content}
    (hfind : tree.find? (spot.location ++ [name]) = some (.file content))
    (hsize : FileTree.withinLimit (spot.pathTo name)) :
    tree.read (spot.pathTo name) = FileTree.readContent content := by
  have hname := FileTree.isEntryName_of_find? (Option.isSome_of_eq_some hfind) name
    (List.mem_append_right _ (List.mem_singleton_self name))
  have habs := Path.isAbsolute_of_slash_not_mem hname.slash_not_mem
  have hnames := Path.names_of_isEntryName hname
  have hslash := endsInSlash_pathTo spot hname.ne_nil hname.slash_not_mem
  by_cases hdot : spot.AtDot
  · rw [Spot.pathTo_of_atDot hdot] at hslash hsize ⊢
    rw [hs.location_of_atDot hdot] at hfind
    have hroot : tree.enterAll tree.root [] = .ok tree.root := rfl
    exact FileTree.read_entered habs hnames hslash hroot hfind hsize
  · obtain ⟨here, hhere, hat⟩ := h
    rw [Spot.pathTo_of_not_atDot hdot] at hslash hsize ⊢
    rw [← hat] at hfind
    have hcont := Path.continues_join hs.ne_nil habs
    have hrelative := hcont.isAbsolute_eq.trans hs.relative
    exact FileTree.read_entered hrelative (hcont.names_eq.trans (by rw [hnames])) hslash hhere
      hfind hsize

/-! ## Walks in trees with the same directories -/

section
variable {after : FileTree}
  (hkept : ∀ place, tree.find? place = some .directory → after.find? place = some .directory)
include hkept

theorem lookUp?_of_directories (hnext : spot.lookUp? tree name = some next)
    (hd : next.entry = .directory) : spot.lookUp? after name = some next := by
  obtain ⟨hspot, hcases⟩ := Spot.lookUp?_cases hnext
  unfold Spot.lookUp?
  simp only [hspot, Entry.isDirectory, Bool.not_true, Bool.false_eq_true, if_false]
  obtain ⟨rfl, rfl⟩ | ⟨rfl, hne, rfl⟩ | ⟨rfl, hne, rfl⟩ | ⟨hname, entry, hfind, rfl⟩ := hcases
  · rfl
  · rw [if_neg (by decide), if_neg (by decide), if_pos rfl, if_neg hne]
  · rw [if_neg (by decide), if_pos rfl, if_neg hne]
  · obtain rfl : entry = .directory := hd
    rw [if_neg hname.ne_here, if_neg hname.ne_up, if_neg hname.ne_nil, hkept _ hfind]
    rfl

/-- A walk goes through directories, so it is the same in every tree that has them. -/
theorem walk_of_directories (h : walk tree spot pieces = some last) (hd : last.entry = .directory) :
    walk after spot pieces = some last := by
  induction pieces generalizing spot with
  | nil => exact h
  | cons piece pieces ih =>
    rw [walk_cons, Option.bind_eq_some_iff] at h
    obtain ⟨next, hnext, h⟩ := h
    rw [walk_cons, lookUp?_of_directories hkept hnext (isDirectory_of_walk h hd)]
    exact ih h

end

theorem walk_without (gone : Location → Bool) (h : walk tree spot pieces = some last)
    (hd : last.entry = .directory) : walk (tree.without gone) spot pieces = some last :=
  walk_of_directories (fun _ => FileTree.find?_without_directory.mpr) h hd

theorem Arrives.without (h : Arrives tree dir spot) (gone : Location → Bool) :
    Arrives (tree.without gone) dir spot :=
  ⟨walk_without gone h.walk_eq h.entry_eq, h.entry_eq, h.location_eq⟩

end DocTools.FilePattern
