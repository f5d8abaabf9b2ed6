import DocTools.Proofs.FilePattern.Listed
import DocTools.Snippet.Injector

/-! # Pages beside templates

When neither the directory of the templates lies in that of the pages nor the other way round, the
pages that are saved leave every template as it is, and none is in the way of another. The main
statements: `Beside.save`, by which a tree stays so when one more page is saved, and
`Beside.save_iff`, by which a page can be saved then exactly if it could be saved at first. -/
namespace DocTools.Snippet.Injector
set_option autoImplicit false

open FilePattern (Listed SameBelow eq_resolve_of_place?)
open FileTree (Grows)
open DocTools.Path (Direct PointsAt resolve)

/-! ## Directories apart -/

/-- Two directories that are spelled without `.` and `..`, neither of which lies in the other. -/
structure Apart (inputDir outputDir : Path) : Prop where
  input_direct : Direct inputDir
  output_direct : Direct outputDir
  output_not_in : ¬inputDir.components <+: outputDir.components
  input_not_in : ¬outputDir.components <+: inputDir.components

section
variable {inputDir outputDir : Path} {base goal : Location}

theorem Apart.input_ne_nil (h : Apart inputDir outputDir) : inputDir ≠ [] := by
  rintro rfl
  exact h.output_not_in List.nil_prefix

theorem Apart.output_ne_nil (h : Apart inputDir outputDir) : outputDir ≠ [] := by
  rintro rfl
  exact h.input_not_in List.nil_prefix

theorem components_of_place? {dir : Path} (hdir : Direct dir) (h : dir.place? = some base) :
    dir.components = base.map .name := by
  obtain ⟨hrelative, rfl⟩ := eq_resolve_of_place? h
  exact (hdir.leadsTo hrelative).components_eq

/-- No location in the one directory is on the way to a location in the other. -/
theorem Apart.not_on_way (h : Apart inputDir outputDir) (hbase : inputDir.place? = some base)
    (hgoal : outputDir.place? = some goal) {place below : Location} (hplace : base <+: place) :
    ¬place <+: goal ++ below := by
  intro hway
  have hin := components_of_place? h.input_direct hbase
  have hout := components_of_place? h.output_direct hgoal
  rcases List.prefix_or_prefix_of_prefix (hplace.trans hway) (List.prefix_append goal below) with hc | hc
  · exact h.output_not_in (by rw [hin, hout]; exact hc.map _)
  · exact h.input_not_in (by rw [hin, hout]; exact hc.map _)

end

/-! ## Pages beside the templates -/

/-- A file stands below the directory of the templates. -/
def IsTemplate (tree : FileTree) (inputDir : Path) (below : Location) : Prop :=
  ∃ content, tree.find? (resolve inputDir ++ below) = some (.file content)

/-- What is new at a location: the page of a template, or a directory on the way to one. -/
inductive Added (tree : FileTree) (inputDir outputDir : Path) (after : FileTree) (place : Location) :
    Prop where
  | page {goal below : Location} {text : Text} (goal_eq : outputDir.place? = some goal)
      (template : IsTemplate tree inputDir below) (place_eq : place = goal ++ below)
      (found : after.find? place = some (.file (.text text)))
  | directory {goal below : Location} (goal_eq : outputDir.place? = some goal)
      (template : IsTemplate tree inputDir below) (way : place <+: goal ++ below)
      (ne : place ≠ goal ++ below) (missing : tree.find? place = none)
      (found : after.find? place = some .directory)

/-- A tree to which pages were added, and else is as it was. -/
structure Beside (tree : FileTree) (inputDir outputDir : Path) (after : FileTree) : Prop where
  grows : Grows tree after
  changed : ∀ place, after.find? place = tree.find? place ∨ Added tree inputDir outputDir after place

/-- Where the path of the page of a template leads to. An absolute path leads nowhere in the tree. -/
inductive Targets (outputDir : Path) (below : Location) (path : Path) : Prop where
  | outside (absolute : path.isAbsolute)
  | inside {goal : Location} (goal_eq : outputDir.place? = some goal)
      (points : PointsAt path (goal ++ below))

section
variable {tree after : FileTree} {inputDir outputDir path : Path} {goal below more : Location}

theorem Beside.refl (tree : FileTree) (inputDir outputDir : Path) :
    Beside tree inputDir outputDir tree := ⟨.refl tree, fun _ => .inl rfl⟩

theorem Beside.sameBelow (h : Beside tree inputDir outputDir after)
    (happart : Apart inputDir outputDir) : SameBelow inputDir tree after := by
  intro base hbase below
  have hnot {goal further : Location} (hgoal : outputDir.place? = some goal) :
      ¬base ++ below <+: goal ++ further :=
    happart.not_on_way hbase hgoal (List.prefix_append base below)
  rcases h.changed (base ++ below) with hsame | hadded
  · exact hsame
  · cases hadded with
    | page hgoal _ hplace _ =>
      exact absurd ⟨[], (List.append_nil _).trans hplace⟩ (hnot hgoal)
    | directory hgoal _ hway _ _ _ => exact absurd hway (hnot hgoal)

/-- A template is not on the way to another one. -/
theorem IsTemplate.eq_of_prefix (h : IsTemplate tree inputDir below)
    (hmore : IsTemplate tree inputDir more) (hway : below <+: more) : below = more := by
  obtain ⟨rest, rfl⟩ := hway
  by_contra hne
  have hrest : rest ≠ [] := by
    rintro rfl
    exact hne (List.append_nil below).symm
  obtain ⟨content, hfile⟩ := h
  obtain ⟨content', hfile'⟩ := hmore
  rw [← List.append_assoc] at hfile'
  have hd := FileTree.find?_above hrest (by rw [hfile']; rfl)
  rw [hfile] at hd
  cases hd

/-! ## What can be saved -/

theorem exists_append_eq_concat (goal : Location) (hbelow : below ≠ []) :
    ∃ front last, goal ++ below = front ++ [last] :=
  (List.eq_nil_or_concat' (goal ++ below)).resolve_left (List.append_ne_nil_of_right_ne_nil goal hbelow)

section
variable (h : Beside tree inputDir outputDir after) (hgoal : outputDir.place? = some goal)
  (htemplate : IsTemplate tree inputDir below)
include h hgoal htemplate

/-- On the way to a page there are the same files as before. -/
theorem Beside.isFile_iff {place : Location} (hway : place <+: goal ++ below)
    (hne : place ≠ goal ++ below) : (∃ content, after.find? place = some (.file content)) ↔
      ∃ content, tree.find? place = some (.file content) := by
  constructor
  · rintro ⟨content, hfile⟩
    rcases h.changed place with hsame | hadded
    · exact ⟨content, hsame ▸ hfile⟩
    · cases hadded with
      | page hgoal' htemplate' hplace _ =>
        obtain rfl := Option.some.inj (hgoal.symm.trans hgoal')
        rw [hplace, List.prefix_append_right_inj] at hway
        rw [hplace, htemplate'.eq_of_prefix htemplate hway] at hne
        exact absurd rfl hne
      | directory _ _ _ _ _ hd =>
        rw [hd] at hfile
        cases hfile
  · rintro ⟨content, hfile⟩
    exact h.grows.file place content hfile

/-- In the place of a page there is a directory only if there was one before. -/
theorem Beside.isDirectory_iff : after.find? (goal ++ below) = some .directory ↔
    tree.find? (goal ++ below) = some .directory := by
  constructor
  · intro hd
    rcases h.changed (goal ++ below) with hsame | hadded
    · exact hsame ▸ hd
    · cases hadded with
      | page _ _ _ hfile =>
        rw [hd] at hfile
        cases hfile
      | directory hgoal' htemplate' hway hne _ _ =>
        obtain rfl := Option.some.inj (hgoal.symm.trans hgoal')
        rw [List.prefix_append_right_inj] at hway
        exact absurd (congrArg _ (htemplate.eq_of_prefix htemplate' hway)) hne
  · exact h.grows.directory _

theorem Beside.clear_iff : after.Clear path (goal ++ below) ↔ tree.Clear path (goal ++ below) := by
  constructor
  · intro hclear
    refine ⟨hclear.routed, hclear.sizes, fun place hway hne content hfile => ?_,
      fun hd => hclear.place ((h.isDirectory_iff hgoal htemplate).mpr hd)⟩
    obtain ⟨content', hfile'⟩ := (h.isFile_iff hgoal htemplate hway hne).mpr ⟨content, hfile⟩
    exact hclear.way place hway hne content' hfile'
  · intro hclear
    refine ⟨hclear.routed, hclear.sizes, fun place hway hne content hfile => ?_,
      fun hd => hclear.place ((h.isDirectory_iff hgoal htemplate).mp hd)⟩
    obtain ⟨content', hfile'⟩ := (h.isFile_iff hgoal htemplate hway hne).mp ⟨content, hfile⟩
    exact hclear.way place hway hne content' hfile'

end

theorem Targets.save_eq_none_iff (tree : FileTree) (h : Targets outputDir below path)
    (hbelow : below ≠ []) (text : Text) : (tree.save path text).2 = none ↔
      ∃ goal, outputDir.place? = some goal ∧ tree.Clear path (goal ++ below) := by
  cases h with
  | outside habs =>
    obtain ⟨failure, hsave⟩ := FileTree.save_of_isAbsolute tree habs text
    rw [hsave]
    constructor
    · exact fun hc => nomatch hc
    · rintro ⟨goal, -, hclear⟩
      obtain ⟨r, hr, -⟩ := hclear.routed
      exact absurd hr (FileTree.route_of_isAbsolute habs r)
  | @inside goal hgoal hpoints =>
    obtain ⟨front, last, hlast⟩ := exists_append_eq_concat goal hbelow
    rw [hgoal, FileTree.save_eq_none_iff (hlast ▸ hpoints), ← hlast]
    constructor
    · exact fun hclear => ⟨goal, rfl, hclear⟩
    · rintro ⟨goal', hgoal', hclear⟩
      obtain rfl := Option.some.inj hgoal'
      exact hclear

/-- Whether a page can be saved does not depend on the pages that were saved before. -/
theorem Beside.save_iff (h : Beside tree inputDir outputDir after)
    (htemplate : IsTemplate tree inputDir below) (hbelow : below ≠ [])
    (hpath : Targets outputDir below path) (text : Text) :
    (after.save path text).2 = none ↔ (tree.save path text).2 = none := by
  rw [hpath.save_eq_none_iff after hbelow, hpath.save_eq_none_iff tree hbelow]
  exact exists_congr fun goal => and_congr_right fun hgoal => h.clear_iff hgoal htemplate

/-! ## What saving leaves -/

/-- A page that is saved is one more beside the templates. -/
theorem Beside.save (h : Beside tree inputDir outputDir after) (htemplate : IsTemplate tree inputDir below)
    (hbelow : below ≠ []) (hpath : Targets outputDir below path) (text : Text) :
    Beside tree inputDir outputDir (after.save path text).1 := by
  refine ⟨h.grows.trans (FileTree.grows_save path text), fun place => ?_⟩
  cases hpath with
  | outside habs =>
    obtain ⟨failure, hafter⟩ := FileTree.save_of_isAbsolute after habs text
    rw [hafter]
    exact h.changed place
  | @inside goal hgoal hpoints =>
    obtain ⟨front, last, hlast⟩ := exists_append_eq_concat goal hbelow
    rw [hlast] at hpoints
    rcases FileTree.find?_of_save hpoints text place with
      hsame | ⟨hway, hnone, hd⟩ | ⟨-, hplace, hfile⟩
    · rw [hsame]
      refine (h.changed place).imp_right fun hadded => ?_
      cases hadded with
      | page hgoal htemplate hplace hfile => exact .page hgoal htemplate hplace (hsame.trans hfile)
      | directory hgoal htemplate hway hne hnone hd =>
        exact .directory hgoal htemplate hway hne hnone (hsame.trans hd)
    · rcases h.changed place with hbefore | hadded
      · refine .inr (.directory hgoal htemplate ?_ ?_ (hbefore ▸ hnone) hd)
        · rw [hlast]
          exact hway.trans (List.prefix_append front [last])
        · rw [hlast]
          rintro rfl
          exact FileTree.not_concat_prefix front last hway
      · cases hadded with
        | page _ _ _ hfile =>
          rw [hnone] at hfile
          cases hfile
        | directory _ _ _ _ _ hd' =>
          rw [hnone] at hd'
          cases hd'
    · exact .inr (.page hgoal htemplate (by rw [hplace, hlast]) hfile)

/-- A page that is saved leaves the others. -/
theorem read_of_save_other {page : Path} {old : Text} (hread : after.read page = .ok old)
    (hpage : Targets outputDir more page) (hpath : Targets outputDir below path) (hbelow : below ≠ [])
    (hne : more ≠ below) (text : Text) : (after.save path text).1.read page = .ok old := by
  cases hpath with
  | outside habs =>
    obtain ⟨failure, hafter⟩ := FileTree.save_of_isAbsolute after habs text
    rw [hafter]
    exact hread
  | @inside goal hgoal hpoints =>
    obtain ⟨hfile, hfind⟩ := FileTree.read_eq_ok_iff.mp hread
    refine FileTree.read_eq_ok_iff.mpr ⟨(FileTree.grows_save path text).hasFile hfile, ?_⟩
    cases hpage with
    | outside habs =>
      obtain ⟨r, -, -, -, hr, -⟩ := FileTree.hasFile_iff.mp hfile
      exact absurd hr (FileTree.route_of_isAbsolute habs r)
    | @inside goal' hgoal' hpoints' =>
      obtain rfl := Option.some.inj (hgoal.symm.trans hgoal')
      obtain ⟨front, last, hlast⟩ := exists_append_eq_concat goal hbelow
      rw [hlast] at hpoints
      rcases FileTree.find?_of_save hpoints text (resolve page) with
        hsame | ⟨-, hnone, -⟩ | ⟨-, hplace, -⟩
      · rw [hsame, hfind]
      · rw [hnone] at hfind
        cases hfind
      · rw [hpoints'.resolve_eq, ← hlast] at hplace
        exact absurd (List.append_cancel_left hplace) hne

end

/-! ## A template and the path of its page -/

theorem targets_outputPath {tree : FileTree} {inputDir outputDir input : Path} {below : Location}
    (happart : Apart inputDir outputDir) (h : Listed tree inputDir below input) :
    outputPath inputDir outputDir input = outputDir.join (FileTree.pathOf below) ∧
      Targets outputDir below (outputPath inputDir outputDir input) := by
  have houtput : outputPath inputDir outputDir input = outputDir.join (FileTree.pathOf below) := by
    rw [outputPath, Path.below?_of_components h.components_eq, Option.getD_some]
  refine ⟨houtput, ?_⟩
  rw [houtput]
  by_cases habs : outputDir.isAbsolute
  · refine .outside ?_
    rw [Path.isAbsolute_join happart.output_ne_nil (Path.isAbsolute_pathOf h.names), habs]
  · have hleads := happart.output_direct.leadsTo (Bool.eq_false_iff.mpr habs)
    exact .inside hleads.place?_eq
      (Path.pointsAt_join hleads happart.output_ne_nil h.ne_nil h.names)

theorem Beside.read_eq_ok_iff {tree after : FileTree} {inputDir outputDir input : Path}
    {below : Location} (h : Beside tree inputDir outputDir after)
    (happart : Apart inputDir outputDir) (hinput : Listed tree inputDir below input) (text : Text) :
    after.read input = .ok text ↔ tree.read input = .ok text := by
  obtain ⟨front, last, hlast⟩ := exists_append_eq_concat (resolve inputDir) hinput.ne_nil
  have hpoints := hinput.points
  have hsame := h.sameBelow happart _ hinput.place?_eq below
  rw [hlast] at hpoints hsame
  rw [FileTree.read_eq_ok_iff_of_pointsAt hpoints, FileTree.read_eq_ok_iff_of_pointsAt hpoints, hsame]

end DocTools.Snippet.Injector
