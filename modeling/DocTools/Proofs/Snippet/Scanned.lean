import DocTools.Proofs.FilePattern.Once
import DocTools.Proofs.FileTree.Reading
import DocTools.Proofs.Snippet.Requests
import Mathlib.Data.List.Pairwise

/-! # Files that are scanned once

A scan takes in the files that are listed for a pattern, and a file that is listed twice has all its
blocks taken for duplicates of themselves. The main statement, `scan_by_ways`: a scan takes in a file
once for each way through the pattern that leads to it, so exactly when there is one way to each file
no file is taken in twice, and then a new extractor reports no duplicates that are not in the files. -/
namespace DocTools.Snippet
set_option autoImplicit false

open DocTools.FilePattern (ListsByWays ListsOnce OneWay Simple)
open DocTools.Path (resolve)

variable {tree : FileTree}

/-! ## Names that are completed once -/

/-- Over all text files of a tree, no two pairs of marker lines complete a block of one name. -/
def CompletesOnce (tree : FileTree) : Prop :=
  ∀ (location location' : Location) (text text' : Text) (b b' : Block),
    tree.find? location = some (.file (.text text)) →
    tree.find? location' = some (.file (.text text')) →
    Completed text.lines b → Completed text'.lines b' → b.name = b'.name →
    location = location' ∧ b = b'

/-- The text files of a tree, with their locations. -/
def textsOf (tree : FileTree) : List (Location × Text) :=
  tree.entries.toList.filterMap fun e =>
    match e.2 with
    | .file (.text text) => some (e.1, text)
    | _ => none

theorem mem_textsOf {location : Location} {text : Text}
    (h : tree.find? location = some (.file (.text text))) : (location, text) ∈ textsOf tree := by
  have hne : location ≠ [] := by
    rintro rfl
    cases h
  exact List.mem_filterMap.mpr ⟨_, (FileTree.find?_eq_some_iff hne).mp h, rfl⟩

theorem completesOnce_of_nodup
    (h : ((textsOf tree).flatMap fun f => (blocksOf f.2).map Block.name).Nodup) :
    CompletesOnce tree := by
  intro location location' text text' b b' hfile hfile' hb hb' hname
  obtain ⟨hwithin, hacross⟩ := List.nodup_flatMap.mp h
  have hmem := ((blocksOf_blocksOf text).mem_iff b).mpr hb
  have hmem' := ((blocksOf_blocksOf text').mem_iff b').mpr hb'
  by_cases hsame : (location, text) = (location', text')
  · obtain ⟨rfl, rfl⟩ := Prod.mk.inj hsame
    exact ⟨rfl, List.inj_on_of_nodup_map (hwithin _ (mem_textsOf hfile)) hmem hmem' hname⟩
  · have : Std.Symm (Function.onFun List.Disjoint fun f : Location × Text =>
        (blocksOf f.2).map Block.name) := ⟨fun _ _ hd _ ha hb => hd hb ha⟩
    have hdisjoint := hacross.forall (mem_textsOf hfile) (mem_textsOf hfile') hsame
    exact absurd (hname ▸ List.mem_map_of_mem hmem') (hdisjoint (List.mem_map_of_mem hmem))

/-! ## Blocks that are taken in -/

theorem size_foldl_keepFirst {d : Snippets} {blocks : List Block}
    (hnew : ∀ b ∈ blocks, ¬d.contains b.name = true) (hnodup : (blocks.map Block.name).Nodup) :
    (blocks.foldl keepFirst d).size = d.size + blocks.length := by
  induction blocks generalizing d with
  | nil => rfl
  | cons b blocks ih =>
    rw [List.map_cons, List.nodup_cons] at hnodup
    have hb := hnew b List.mem_cons_self
    have hrest : ∀ b' ∈ blocks, ¬(keepFirst d b).contains b'.name = true := by
      intro b' hb' hc
      rcases contains_keepFirst.mp hc with hname | hd
      · exact hnodup.1 (hname ▸ List.mem_map_of_mem hb')
      · exact hnew b' (List.mem_cons_of_mem _ hb') hd
    have hkept : (keepFirst d b).size = d.size + 1 := by
      rw [keepFirst, if_neg hb]
      exact Dictionary.size_insert hb _
    rw [List.foldl_cons, ih hrest hnodup.2, hkept, List.length_cons]
    omega

/-- Blocks of different names make no duplicates in a new extractor. -/
theorem Takes.duplicates_eq_zero {blocks : List Block} {x : Extractor}
    (h : Takes Extractor.fresh blocks x) (hnodup : (blocks.map Block.name).Nodup) :
    x.duplicates = 0 := by
  have hsize : x.snippets.size = Extractor.fresh.snippets.size + blocks.length := by
    rw [h.snippets]
    exact size_foldl_keepFirst (fun _ _ hc => Bool.false_ne_true hc) hnodup
  have hcount := h.count
  have hfresh : Extractor.fresh.duplicates = 0 := rfl
  omega

theorem find?_of_source? {path : Path} {source : Path × Text} (h : source? tree path = some source) :
    tree.find? (resolve path) = some (.file (.text source.2)) := by
  obtain ⟨text, hread, rfl⟩ := Option.map_eq_some_iff.mp h
  cases hpath : tree.read path with
  | error e =>
    rw [hpath] at hread
    cases hread
  | ok found =>
    rw [hpath] at hread
    cases hread
    exact (FileTree.read_eq_ok_iff.mp hpath).2

/-- Files at different places hold blocks of different names, when every name is completed once. -/
theorem nodup_names_of_places {paths : List Path} (honce : (paths.map resolve).Nodup)
    (hnames : CompletesOnce tree) :
    (((paths.filterMap (source? tree)).flatMap fun s => blocksOf s.2).map Block.name).Nodup := by
  have hplaces : paths.Pairwise fun p q => resolve p ≠ resolve q := List.pairwise_map.mp honce
  rw [List.Nodup, List.pairwise_map, List.pairwise_flatMap]
  constructor
  · intro source hsource
    obtain ⟨path, -, hpath⟩ := List.mem_filterMap.mp hsource
    have hfile := find?_of_source? hpath
    have hblocks := blocksOf_blocksOf source.2
    refine hblocks.increasing.imp_of_mem fun {b b'} hb hb' hlt hname => ?_
    obtain ⟨-, rfl⟩ := hnames _ _ _ _ b b' hfile hfile ((hblocks.mem_iff b).mp hb)
      ((hblocks.mem_iff b').mp hb') hname
    exact Nat.lt_irrefl _ hlt
  · refine List.pairwise_filterMap.mpr (hplaces.imp ?_)
    intro p q hpq s hs s' hs' b hb b' hb' hname
    obtain ⟨hsame, -⟩ := hnames _ _ _ _ b b' (find?_of_source? hs) (find?_of_source? hs')
      (((blocksOf_blocksOf s.2).mem_iff b).mp hb) (((blocksOf_blocksOf s'.2).mem_iff b').mp hb') hname
    exact hpq hsame

/-! ## Scans -/

/-- A scan for a valid pattern takes in a file once for each way through the pattern that leads to it.
No file is taken in twice, in strict order of the paths, exactly when no two ways lead to one file, as
they never do through a simple pattern. Then a new extractor reports no duplicate, if the files
themselves complete no name twice. -/
theorem scan_by_ways (tree : FileTree) (dir : Path) {pattern : Text} {q : FilePattern}
    (hq : FilePattern.ofText pattern = .ok q) :
    ∃ paths x, tree.glob dir pattern = .ok paths ∧
      Extractor.fresh.addDirectory tree dir pattern = .ok (x, paths.length) ∧
      ListsByWays tree dir pattern paths ∧
      (ListsOnce paths ↔ OneWay tree dir pattern) ∧
      (Simple q.segments → OneWay tree dir pattern) ∧
      (OneWay tree dir pattern → CompletesOnce tree → x.duplicates = 0) := by
  obtain ⟨paths, hglob, hlists⟩ := FilePattern.glob_by_ways tree dir hq
  refine ⟨paths, paths.foldl (Extractor.addFile tree) Extractor.fresh, hglob, ?_, hlists,
    hlists.once_iff, fun hsimple => hsimple.oneWay hq tree dir, fun hone hnames => ?_⟩
  · rw [Extractor.addDirectory, hglob]
  · have htakes := takes_serve tree Extractor.fresh (.directory dir pattern)
    simp only [Extractor.serve, Extractor.addDirectory, Request.sources, hglob] at htakes
    exact htakes.duplicates_eq_zero (nodup_names_of_places (hlists.once_iff.mpr hone).once hnames)

/-- A file below two directories of one name. -/
def nestedSame : FileTree :=
  ((∅ : FileTree).save "d/x/x/a.cpp".toList
    "// [snippet:a]\nx();\n// [/snippet:a]\n".toList).1

theorem completesOnce_nestedSame : CompletesOnce nestedSame :=
  completesOnce_of_nodup (by decide +kernel)

def belowX : Text := "x/**/*.cpp".toList

/-- With one `**` the file is taken in once. -/
theorem scan_by_ways_belowX :
    ∃ q, FilePattern.ofText belowX = .ok q ∧ Simple q.segments ∧ CompletesOnce nestedSame ∧
      ∃ paths x, nestedSame.glob "d".toList belowX = .ok paths ∧ ListsOnce paths ∧
        Extractor.fresh.addDirectory nestedSame "d".toList belowX = .ok (x, paths.length) ∧
        x.duplicates = 0 := by
  have hread : (FilePattern.ofText belowX).toOption.any fun q => decide (Simple q.segments) := by
    decide +kernel
  obtain ⟨q, hq, hsimple⟩ := (Option.any_eq_true _ _).mp hread
  have hq := eq_ok_of_toOption hq
  have hsimple := of_decide_eq_true hsimple
  obtain ⟨paths, x, hglob, hscan, -, honce, hway, hduplicates⟩ :=
    scan_by_ways nestedSame "d".toList hq
  have hone := hway hsimple
  exact ⟨q, hq, hsimple, completesOnce_nestedSame, paths, x, hglob, honce.mpr hone, hscan,
    hduplicates hone completesOnce_nestedSame⟩

def aroundX : Text := "**/x/**/*.cpp".toList

theorem glob_aroundX : nestedSame.glob "d".toList aroundX =
    .ok ["d/x/x/a.cpp".toList, "d/x/x/a.cpp".toList] := by
  have hread : (FilePattern.ofText (FileTree.patternBelow "d".toList aroundX)).toOption.any fun q =>
      !q.onlyDirectories && decide
        (((FilePattern.search nestedSame q.segments .top).filter fun s => !s.entry.isDirectory).map
          (·.path) = ["d/x/x/a.cpp".toList, "d/x/x/a.cpp".toList]) := by
    decide +kernel
  obtain ⟨q, hq, hfound⟩ := (Option.any_eq_true _ _).mp hread
  rw [Bool.and_eq_true, Bool.not_eq_true', decide_eq_true_iff] at hfound
  rw [FileTree.glob, FileTree.filesMatching, eq_ok_of_toOption hq]
  show Except.ok (FilePattern.files nestedSame q) = _
  rw [FilePattern.files, hfound.1, if_neg Bool.false_ne_true, hfound.2,
    List.filter_eq_self.mpr (by decide), Path.sort, List.mergeSort_of_pairwise (by decide)]

/-- With two `**` around `x` there are two ways to the file. It is taken in twice, and its snippet is
reported as a duplicate of itself. -/
theorem scan_repeats_nestedSame :
    CompletesOnce nestedSame ∧ (FilePattern.ofText aroundX).toOption.isSome ∧
    ∃ path x, nestedSame.glob "d".toList aroundX = .ok [path, path] ∧
      Extractor.fresh.addDirectory nestedSame "d".toList aroundX = .ok (x, 2) ∧
      x.errors = [.duplicate path 3 ['a']] := by
  refine ⟨completesOnce_nestedSame, by decide +kernel, "d/x/x/a.cpp".toList,
    ["d/x/x/a.cpp".toList, "d/x/x/a.cpp".toList].foldl (Extractor.addFile nestedSame) Extractor.fresh,
    glob_aroundX, ?_, ?_⟩
  · rw [Extractor.addDirectory, glob_aroundX]
    rfl
  · decide +kernel

end DocTools.Snippet
