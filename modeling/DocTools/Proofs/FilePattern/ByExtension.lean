import DocTools.Proofs.FilePattern.Listed
import DocTools.Proofs.FilePattern.Sound
import DocTools.Reference.Directory
import DocTools.Snippet.Extractor
import DocTools.Snippet.Injector

/-! # Searches by extension

Whatever characters the name of a directory has, and whatever slashes stand behind it, a search by
extension below it leaves the other directories alone. The main statement, `lists_by_extension`: the
programs find the sources and templates at any depth, and the documentation files in the directory
itself, each once. -/
namespace DocTools.FilePattern
set_option autoImplicit false

open DocTools.Path (Direct resolve)

variable {tree : FileTree} {dir : Path} {spot : Spot} {extension : Text}

/-! ## The files in one directory -/

/-- One name alone, which ends in a dot and the extension. -/
structure IsChildWith (extension : Text) (below : Location) : Prop where
  alone : below.length = 1
  hasExtension : HasExtension extension below

/-- The segment by itself is held against the names in the directory. -/
theorem finds_children (hd : spot.entry.isDirectory) (extension : Text) :
    Finds tree [extensionSegment extension] (IsChildWith extension) spot
      ((tree.children spot.location).filter (isFileWith extension)) where
  sublist := (List.filter_sublist.trans List.filter_sublist).trans List.filter_sublist
  search_eq := by
    have hdeep : extensionSegment extension ≠ .deep := fun h => nomatch (List.cons.inj h).1
    have hdots : spot.dots (extensionSegment extension) = [] := if_neg fun h => nomatch h
    rw [search_cons_wild tree hdeep rfl, hd, Bool.not_true, if_neg Bool.false_ne_true, hdots,
      List.flatMap_nil, List.nil_append]
    exact filter_held spot extension _
  mem e := by
    rw [List.mem_filter, FileTree.mem_children_iff]
    constructor
    · rintro ⟨⟨name, hat, hfind⟩, hfile⟩
      have hne := List.cons_ne_nil name []
      obtain ⟨⟨content, hentry⟩, hextension⟩ := (isFileWith_iff hat hne).mp hfile
      exact ⟨[name], content, hentry, ⟨rfl, hextension⟩, hfind⟩
    · rintro ⟨below, content, rfl, ⟨halone, hextension⟩, hfind⟩
      obtain ⟨name, rfl⟩ := List.length_eq_one_iff.mp halone
      exact ⟨⟨name, rfl, hfind⟩,
        (isFileWith_iff rfl hextension.ne_nil).mpr ⟨⟨content, rfl⟩, hextension⟩⟩

/-! ## Below a directory that is there -/

/-- Any search whose finds from every directory are the files of the wanted places lists them below a
directory that is there. -/
theorem listsWhere_files (hdir : Direct dir) (hd : tree.isDirectory dir) {segments : List Segment}
    {wanted : Location → Prop} (hnil : ¬wanted [])
    (hfinds : ∀ spot : Spot, spot.entry.isDirectory → ∃ found, Finds tree segments wanted spot found) :
    ListsWhere tree dir wanted
      (files tree ⟨(Text.splitOn '/' (trimEnd dir)).map literal ++ segments, false⟩) := by
  have hstands := FileTree.find?_of_isDirectory hd
  have hleads := hdir.leadsTo (FileTree.isAbsolute_of_isDirectory hd)
  obtain ⟨spot, hwalk⟩ :=
    exists_walk_of_leadsTo hleads (FileTree.ne_nil_of_isDirectory hd) hstands
  cases reached_of_walk hwalk with
  | top hcomponents _ => exact absurd (hcomponents ▸ List.mem_cons_self) hdir.here_not_mem
  | plain hwalked hcomponents =>
    have hentry := (sound_top.of_walk hwalk).entry_eq
    rw [← hwalked.resolve_eq hcomponents, hstands] at hentry
    obtain ⟨found, hfound⟩ := hfinds spot (by rw [← Option.some.inj hentry]; rfl)
    rw [files_of_walk hfound hwalk]
    exact hwalked.listsWhere hdir hcomponents hwalk hfound hnil
  | dotted _ hcomponents => exact absurd (hcomponents ▸ List.mem_cons_self) hdir.here_not_mem

/-! ## What the programs search for -/

/-- The extensions of sources and templates. -/
def searchedExtensions : List Text := ["cpp".toList, "md".toList, "mdx".toList]

/-- They are those of the patterns for sources, if no other is asked for, and for templates. -/
example : Snippet.Extractor.standardPattern :: Snippet.Injector.templatePatterns =
    searchedExtensions.map withExtension := rfl

/-- In every tree, for every directory that is there: the sources and templates below it are found by
their extensions at any depth, and the documentation files among what it holds itself. -/
theorem lists_by_extension (tree : FileTree) {dir : Path} (hdir : Direct dir)
    (hd : tree.isDirectory dir) :
    (∀ extension ∈ searchedExtensions, ∃ paths,
      tree.glob dir (withExtension extension) = .ok paths ∧
      ListsWhere tree dir (HasExtension extension) paths) ∧
    ∃ paths, Reference.documentFiles tree dir = .ok paths ∧
      ListsWhere tree dir (IsChildWith "xml".toList) paths ∧
      Reference.survey tree dir = .ok (paths.foldl (Reference.Survey.add tree)
        ⟨Dictionary.empty, paths.length, [], [], []⟩) := by
  constructor
  · intro extension hextension
    have hplain : ∀ e ∈ searchedExtensions, IsPlain e := by decide
    refine ⟨_, glob_below tree (ofText_patternBelow dir (hplain extension hextension)), ?_⟩
    exact listsWhere_files hdir hd (fun h => h.ne_nil rfl)
      fun spot _ => ⟨_, finds_deep tree extension spot⟩
  · have hplain : IsPlain "xml".toList := by decide
    have hread := ofText_below_of_ne_nil dir (List.cons_ne_nil _ _) (ofText_extension hplain)
    have hglob : Reference.documentFiles tree dir = _ := glob_below tree hread
    refine ⟨_, hglob, ?_, ?_⟩
    · exact listsWhere_files hdir hd (fun h => h.hasExtension.ne_nil rfl)
        fun spot hspot => ⟨_, finds_children hspot _⟩
    · rw [Reference.survey, hglob]
      rfl

/-- A directory with a name that would match another one as a pattern, and in it a hidden page and a
directory that is named like a page. -/
def oddlyNamed : FileTree :=
  ["d[1]*/.x.md", "d[1]*/sub.md/b ?.md", "d[1]*/a.xml", "d[1]*/sub.md/c.xml", "d1x/a.md"].foldl
    (fun tree path => (tree.save path.toList []).1) ∅

def oddDir : Path := "d[1]*//".toList

theorem lists_by_extension_oddlyNamed : Direct oddDir ∧ oddlyNamed.isDirectory oddDir ∧
    (∃ pages, oddlyNamed.glob oddDir (withExtension "md".toList) = .ok pages ∧
      ["d[1]*".toList, ".x.md".toList] ∈ pages.map resolve ∧
      ["d[1]*".toList, "sub.md".toList, "b ?.md".toList] ∈ pages.map resolve ∧
      ["d[1]*".toList, "sub.md".toList] ∉ pages.map resolve ∧
      ["d1x".toList, "a.md".toList] ∉ pages.map resolve) ∧
    ∃ documents, Reference.documentFiles oddlyNamed oddDir = .ok documents ∧
      ["d[1]*".toList, "a.xml".toList] ∈ documents.map resolve ∧
      ["d[1]*".toList, "sub.md".toList, "c.xml".toList] ∉ documents.map resolve := by
  have hdir : Direct oddDir := by decide
  have hd : oddlyNamed.isDirectory oddDir := by decide +kernel
  have hresolve : resolve oddDir = ["d[1]*".toList] := by decide
  obtain ⟨hpages, documents, hdocuments, hxml, -⟩ := lists_by_extension oddlyNamed hdir hd
  obtain ⟨pages, hglob, hmd⟩ := hpages "md".toList (by decide)
  refine ⟨hdir, hd, ⟨pages, hglob, ?_, ?_, fun h => ?_, fun h => ?_⟩,
    documents, hdocuments, ?_, fun h => ?_⟩
  · exact (hmd.mem _).mpr ⟨[".x.md".toList], .text [], rfl, ⟨[], _, rfl, by decide⟩,
      by decide, by decide +kernel⟩
  · exact (hmd.mem _).mpr ⟨["sub.md".toList, "b ?.md".toList], .text [], rfl,
      ⟨["sub.md".toList], _, rfl, by decide⟩, by decide, by decide +kernel⟩
  · obtain ⟨_, content, -, -, -, hfile⟩ := (hmd.mem _).mp h
    have hsub : oddlyNamed.find? ["d[1]*".toList, "sub.md".toList] = some .directory := by
      decide +kernel
    rw [hsub] at hfile
    cases hfile
  · obtain ⟨_, _, hat, -⟩ := (hmd.mem _).mp h
    rw [hresolve] at hat
    exact absurd (List.cons.inj hat).1 (by decide)
  · exact (hxml.mem _).mpr ⟨["a.xml".toList], .text [], rfl, ⟨rfl, [], _, rfl, by decide⟩,
      by decide, by decide +kernel⟩
  · obtain ⟨_, _, hat, hchild, -⟩ := (hxml.mem _).mp h
    have hlength := congrArg List.length hat
    rw [hresolve, List.length_append, hchild.alone] at hlength
    cases hlength

end DocTools.FilePattern
