import DocTools.Proofs.FilePattern.InDirectory
import DocTools.Proofs.FilePattern.Once
import DocTools.Proofs.Snippet.Amid

/-! # All templates in turn

The templates of the second extension are looked for when the pages of the first have been saved. They
are nevertheless those of the tree at first: a page has the extension of its template, and directories
are not listed. The main statement, `exists_rounds`: for all directories, a run gives every template that
stands in the tree at first one turn. -/
namespace DocTools

namespace FilePattern
set_option autoImplicit false

open DocTools.Path (resolve)

variable {tree : FileTree} {dir : Path} {extension : Text} {below : Location}
  {paths others : List Path}

/-! ## Files with an extension, for every spelling of the directory -/

/-- The names of a path that is found end with those below the directory. -/
theorem names_of_walk {spot : Spot} (h : walk tree .top (Text.splitOn '/' (trimEnd dir)) = some spot)
    (hne : below ≠ []) (hnames : ∀ name ∈ below, IsEntryName name) :
    ∃ front, (spot.pathDown below).names = front ++ below := by
  cases reached_of_walk h with
  | top _ htop => exact ⟨[], by rw [htop.pathDown_eq hne hnames, Path.names_pathOf hnames]; rfl⟩
  | plain hwalked _ => exact ⟨_, (hwalked.continues_pathDown hne hnames).names_eq⟩
  | dotted hwalked _ => exact ⟨_, (hwalked.continues_pathDown hne hnames).names_eq⟩

/-- The walk to a directory with files below it is one through directories. -/
theorem entry_of_below {spot : Spot} (h : walk tree .top (Text.splitOn '/' (trimEnd dir)) = some spot)
    (hne : below ≠ []) {content : Content}
    (hfind : tree.find? (spot.location ++ below) = some (.file content)) : spot.entry = .directory := by
  have hentry := (sound_top.of_walk h).entry_eq
  rw [FileTree.find?_above hne (by rw [hfind]; rfl)] at hentry
  exact (Option.some.inj hentry).symm

/-- The files with an extension, in order and each once. -/
theorem listsOnce_files (tree : FileTree) (dir : Path) (hplain : IsPlain extension)
    (hsimple : Simple [.deep, extensionSegment extension]) :
    ListsOnce (files tree ⟨segmentsBelow dir extension, false⟩) := by
  have hq := ofText_withExtension hplain
  obtain ⟨paths, hpaths, hways⟩ := glob_by_ways tree dir hq
  rw [glob_below tree (ofText_patternBelow dir hplain)] at hpaths
  obtain rfl := Except.ok.inj hpaths
  exact hways.once_iff.mpr (Simple.oneWay hsimple hq tree dir)

theorem ListsOnce.nodup (h : ListsOnce paths) : paths.Nodup := h.once.of_map _

theorem ListsOnce.eq_of_mem_iff (h : ListsOnce paths) (h' : ListsOnce others)
    (hmem : ∀ path, path ∈ paths ↔ path ∈ others) : paths = others :=
  Path.eq_of_perm_of_pairwise ((List.perm_ext_iff_of_nodup h.nodup h'.nodup).mpr hmem) h.once
    (h.increasing.imp And.left) (h'.increasing.imp And.left)

end FilePattern

namespace Snippet.Injector
set_option autoImplicit false

open FilePattern
open DocTools.Path (resolve)

variable {snippets : Snippets} {x : Injector} {inputDir outputDir path : Path} {start after : FileTree}
  {done : List (Path × Fate)} {extension other : Text}

/-! ## Templates with an extension -/

theorem exists_template (h : path ∈ files start ⟨segmentsBelow inputDir extension, false⟩) :
    ∃ below, Template start inputDir below path ∧ HasExtension extension below := by
  obtain ⟨-, spot, hspot, below, content, rfl, hextension, hfind⟩ := (mem_files_iff ..).mp h
  have hfound := foundBelow_of_walk hspot hextension.ne_nil hfind
  exact ⟨below, ⟨hfound, names_of_walk hspot hextension.ne_nil hfound.names⟩, hextension⟩

theorem searched_extensions : ∀ extension ∈ ["md".toList, "mdx".toList],
    IsPlain extension ∧ Simple [.deep, extensionSegment extension] := by decide

/-- Templates with two extensions, of which neither ends like the other, are at different places. -/
theorem nodup_templates (hends : ¬('.' :: extension) <:+ ('.' :: other))
    (hends' : ¬('.' :: other) <:+ ('.' :: extension)) {firsts seconds : List Path}
    (hfirsts : firsts = files start ⟨segmentsBelow inputDir extension, false⟩)
    (hseconds : seconds = files start ⟨segmentsBelow inputDir other, false⟩)
    (honce : ListsOnce firsts) (honce' : ListsOnce seconds) :
    ((firsts ++ seconds).map resolve).Nodup := by
  rw [List.map_append]
  refine honce.once.append honce'.once fun place hplace hplace' => ?_
  obtain ⟨first, hfirst, rfl⟩ := List.mem_map.mp hplace
  obtain ⟨second, hsecond, heq⟩ := List.mem_map.mp hplace'
  obtain ⟨below, htemplate, hextension⟩ := exists_template (hfirsts ▸ hfirst)
  obtain ⟨below', htemplate', hextension'⟩ := exists_template (hseconds ▸ hsecond)
  rw [htemplate.resolve_eq, htemplate'.resolve_eq] at heq
  rw [List.append_cancel_left heq] at hextension'
  exact (hextension.suffix_or_suffix hextension').elim hends hends'

/-- A template with another extension than those of the pages is a file when it was one before. -/
theorem Amid.exists_file_iff {tree : FileTree} {lead : List Path.Component}
    (h : Amid tree lead (HasExtension extension) after)
    (hends : ¬('.' :: extension) <:+ ('.' :: other)) (hends' : ¬('.' :: other) <:+ ('.' :: extension))
    (base : Location) {below : Location} (hextension : HasExtension other below) :
    (∃ content, after.find? (base ++ below) = some (.file content)) ↔
      ∃ content, tree.find? (base ++ below) = some (.file content) := by
  constructor
  · rintro ⟨content, hfile⟩
    rcases h.changed (base ++ below) with hsame | hnew
    · exact ⟨content, hsame ▸ hfile⟩
    · cases hnew with
      | page hpage hplace _ _ =>
        have hother := hextension.append base
        rw [hplace] at hother
        exact (((hpage.append _).suffix_or_suffix hother).elim hends hends').elim
      | directory _ _ _ hd =>
        rw [hd] at hfile
        cases hfile
  · rintro ⟨content, hfile⟩
    exact h.grows.file _ content hfile

/-- The pages of one extension leave the list of the templates with another one. -/
theorem Turns.files_eq (h : Turns snippets inputDir outputDir start done after)
    (hall : ∀ turn ∈ done, ∃ below, Template start inputDir below turn.1 ∧ HasExtension extension below)
    (hdone : done.map Prod.fst = files start ⟨segmentsBelow inputDir extension, false⟩)
    (hends : ¬('.' :: extension) <:+ ('.' :: other)) (hends' : ¬('.' :: other) <:+ ('.' :: extension))
    (hplain : IsPlain other) (hsimple : Simple [.deep, extensionSegment other]) :
    files after ⟨segmentsBelow inputDir other, false⟩ =
      files start ⟨segmentsBelow inputDir other, false⟩ := by
  have hone (tree : FileTree) := listsOnce_files tree inputDir hplain hsimple
  by_cases hnil : done = []
  · subst hnil
    rw [h.eq_of_nil]
  · -- a template that was found shows that the walk to the directory goes through directories
    obtain ⟨turn, hturn⟩ := List.exists_mem_of_ne_nil done hnil
    have hfound : turn.1 ∈ files start ⟨segmentsBelow inputDir extension, false⟩ :=
      hdone ▸ List.mem_map_of_mem hturn
    obtain ⟨-, spot, hspot, below, content, -, hextension, hfind⟩ := (mem_files_iff ..).mp hfound
    have hamid := h.amid_wanted hall
    have hafter := walk_of_directories hamid.grows.directory hspot
      (entry_of_below hspot hextension.ne_nil hfind)
    refine (hone after).eq_of_mem_iff (hone start) fun path => ?_
    rw [mem_files_iff, mem_files_iff, hspot, hafter]
    refine and_congr_right fun _ => exists_congr fun found => and_congr_right fun _ =>
      exists_congr fun below => ?_
    simp only [exists_and_left]
    refine and_congr_right fun _ => and_congr_right fun hother => ?_
    exact hamid.exists_file_iff hends hends' found.location hother

/-! ## A whole run -/

/-- The turns of a run over all templates of a directory. -/
structure Rounds (tree : FileTree) (x : Injector) (inputDir outputDir : Path)
    (done : List (Path × Fate)) (run : Run) : Prop where
  found : ∃ mds mdxs, tree.glob inputDir "**/*.md".toList = .ok mds ∧
    tree.glob inputDir "**/*.mdx".toList = .ok mdxs ∧ done.map Prod.fst = mds ++ mdxs
  turns : Turns x.snippets inputDir outputDir tree done run.tree
  notes : Notes x done run
  templates : AllTemplates tree inputDir done
  once : (done.map fun turn => resolve turn.1).Nodup

theorem notes_start (tree : FileTree) (x : Injector) : Notes x [] ⟨tree, x, []⟩ where
  snippets_eq := rfl
  errors_iff := (and_iff_left fun _ hturn => nomatch hturn).symm
  written_eq := rfl

theorem addMatching_withExtension (run : Run) (h : IsPlain extension) :
    Run.addMatching inputDir outputDir run (withExtension extension) =
      .ok ((files run.tree ⟨segmentsBelow inputDir extension, false⟩).foldl
        (Run.add inputDir outputDir) run) := by
  rw [Run.addMatching, glob_withExtension run.tree inputDir h]
  rfl

/-- The run over the templates of one extension that a tree has. -/
def roundOver (inputDir outputDir : Path) (extension : Text) (run : Run) : Run :=
  (files run.tree ⟨segmentsBelow inputDir extension, false⟩).foldl (Run.add inputDir outputDir) run

theorem round_turns {run : Run} (hturns : Turns x.snippets inputDir outputDir start done run.tree)
    (hnotes : Notes x done run) (extension : Text) : ∃ more,
      more.map Prod.fst = files run.tree ⟨segmentsBelow inputDir extension, false⟩ ∧
      Turns x.snippets inputDir outputDir start (done ++ more)
        (roundOver inputDir outputDir extension run).tree ∧
      Notes x (done ++ more) (roundOver inputDir outputDir extension run) :=
  foldl_add_turns hturns hnotes _

theorem injectDirectory_eq (tree : FileTree) (x : Injector) (inputDir outputDir : Path) :
    injectDirectory tree x inputDir outputDir = .ok (roundOver inputDir outputDir "mdx".toList
      (roundOver inputDir outputDir "md".toList ⟨tree, x, []⟩)) := by
  obtain ⟨hmd, -⟩ := searched_extensions "md".toList (by decide)
  obtain ⟨hmdx, -⟩ := searched_extensions "mdx".toList (by decide)
  rw [injectDirectory, templatePatterns_eq, List.map_cons, List.foldlM_cons,
    addMatching_withExtension _ hmd]
  show [withExtension "mdx".toList].foldlM (Run.addMatching inputDir outputDir)
    (roundOver inputDir outputDir "md".toList ⟨tree, x, []⟩) = _
  rw [List.foldlM_cons, addMatching_withExtension _ hmdx]
  rfl

theorem templates_of_files (h : done.map Prod.fst = files start ⟨segmentsBelow inputDir extension, false⟩) :
    ∀ turn ∈ done, ∃ below, Template start inputDir below turn.1 ∧ HasExtension extension below :=
  fun _ hturn => exists_template (h ▸ List.mem_map_of_mem hturn)

/-- Every run comes to an end, and has given each template that stood in the tree at first one turn. -/
theorem exists_rounds (tree : FileTree) (x : Injector) (inputDir outputDir : Path) :
    ∃ run done, injectDirectory tree x inputDir outputDir = .ok run ∧
      Rounds tree x inputDir outputDir done run := by
  obtain ⟨hmd, hsimple⟩ := searched_extensions "md".toList (by decide)
  obtain ⟨hmdx, hsimple'⟩ := searched_extensions "mdx".toList (by decide)
  have hends : ¬('.' :: "md".toList) <:+ ('.' :: "mdx".toList) := by decide
  have hends' : ¬('.' :: "mdx".toList) <:+ ('.' :: "md".toList) := by decide
  have hstart : Turns x.snippets inputDir outputDir tree [] tree := .start
  obtain ⟨firsts, hfirsts, hturns, hnotes⟩ := round_turns hstart (notes_start tree x) "md".toList
  rw [List.nil_append] at hturns hnotes
  have hmds := templates_of_files hfirsts
  obtain ⟨seconds, hseconds, hall, hlast⟩ := round_turns hturns hnotes "mdx".toList
  rw [hturns.files_eq hmds hfirsts hends hends' hmdx hsimple'] at hseconds
  have hmdxs := templates_of_files hseconds
  have hfound : (firsts ++ seconds).map Prod.fst = firsts.map Prod.fst ++ seconds.map Prod.fst :=
    List.map_append ..
  refine ⟨_, firsts ++ seconds, injectDirectory_eq tree x inputDir outputDir, ⟨_, _, ?_, ?_, hfound⟩,
    hall, hlast, fun turn hturn => ?_, ?_⟩
  · rw [hfirsts]
    exact glob_withExtension tree inputDir hmd
  · rw [hseconds]
    exact glob_withExtension tree inputDir hmdx
  · rcases List.mem_append.mp hturn with hturn | hturn
    · exact (hmds turn hturn).imp fun _ => And.left
    · exact (hmdxs turn hturn).imp fun _ => And.left
  · have honce : ListsOnce (firsts.map Prod.fst) := by
      rw [hfirsts]
      exact listsOnce_files tree inputDir hmd hsimple
    have honce' : ListsOnce (seconds.map Prod.fst) := by
      rw [hseconds]
      exact listsOnce_files tree inputDir hmdx hsimple'
    have hnodup := nodup_templates hends hends' hfirsts hseconds honce honce'
    rwa [← List.map_append, List.map_map] at hnodup

end Snippet.Injector
end DocTools
