import DocTools.Command.WriteReference
import DocTools.Proofs.Reference.Attempts
import DocTools.Proofs.Reference.Surveyed

/-! # What the command that writes the reference reports

Files that can not be read, an output directory that can not be made and pages that can not be written
all lead to the same exit status, and a directory without any namespace ends the run early. The main
statement, `run_reports_reference`, says when there is none of these faults and that all pages are
attempted whatever the others come to. It is for every tree and all arguments; a directory that is
spelled with more than one slash behind the dots at its beginning is taken for an empty one
(`run_misses_slashedDir`). -/
namespace DocTools.Command.WriteReference
set_option autoImplicit false

open Reference
open FilePattern (ListsIn)
open DocTools.Path (resolve)

/-! ## Files and pages -/

/-- The fragments of the files that can be read, in the order of the files. -/
def fragmentsIn (tree : FileTree) (paths : List Path) : List Namespace :=
  (paths.filterMap (fragments? tree)).flatten

/-- The pages of the namespace that is documented. -/
def pagesFor (s : Settings) (fragments : List Namespace) : List Page :=
  (⟨s.target, s.withIndex⟩ : Generator).pagesOf fragments

/-- The tree in which the output directory was made, as far as it can be. -/
def prepared (tree : FileTree) (s : Settings) : FileTree := (tree.makeDirectories s.output).1

/-- All that is asked of the output: the directory can be made and every page written. -/
def OutputTakes (tree : FileTree) (s : Settings) (pages : List Page) : Prop :=
  (tree.makeDirectories s.output).2 = none ∧
    ∀ page ∈ pages, (prepared tree s).Fillable (page.path s.output)

theorem merge_eq_empty_iff (fragments : List Namespace) :
    (Model.merge ∅ fragments).isEmpty ↔ fragments = [] := by
  constructor
  · intro h
    by_contra hne
    obtain ⟨f, hf⟩ := List.exists_mem_of_ne_nil fragments hne
    have hkey := (Model.mem_keys_merge_iff ∅ fragments f.name).mpr (.inr ⟨f, hf, rfl⟩)
    rw [Dictionary.keys, List.isEmpty_iff.mp h] at hkey
    cases hkey
  · rintro rfl
    rfl

theorem failures_eq_nil_iff {tree : FileTree} {paths : List Path} {found : Survey}
    (h : found.Tells tree paths) :
    found.failures = [] ↔ ∀ path ∈ paths, ∃ fragments, readFile tree path = .ok fragments := by
  rw [h.failures, List.filterMap_eq_nil_iff]
  refine forall₂_congr fun path _ => ?_
  unfold failure?
  cases readFile tree path with
  | ok fragments => exact ⟨fun _ => ⟨fragments, rfl⟩, fun _ => rfl⟩
  | error f => exact ⟨fun hc => (nomatch hc), fun ⟨_, hc⟩ => nomatch hc⟩

/-! ## Runs on a directory -/

/-- What a run has done with the documentation files of a directory. -/
structure Accounts (tree : FileTree) (s : Settings) (paths : List Path) (run : Run) : Prop where
  status : run.code = 0 ↔
    (∀ path ∈ paths, ∃ fragments, readFile tree path = .ok fragments) ∧
      (fragmentsIn tree paths = [] ∨ OutputTakes tree s (pagesFor s (fragmentsIn tree paths)))
  /-- Without any namespace nothing is written. -/
  unchanged : fragmentsIn tree paths = [] → run.tree = tree
  /-- Without the output directory no page can be written. -/
  blocked : fragmentsIn tree paths ≠ [] → (tree.makeDirectories s.output).2 ≠ none →
    run.tree = prepared tree s ∧
      ∀ page ∈ pagesFor s (fragmentsIn tree paths), ¬(prepared tree s).Fillable (page.path s.output)
  /-- With it every page is attempted, and what became of it is told. -/
  attempts : fragmentsIn tree paths ≠ [] → (tree.makeDirectories s.output).2 = none →
    ∃ w, Attempted s.output (prepared tree s) (pagesFor s (fragmentsIn tree paths)) w ∧
      run.tree = w.tree ∧ w.out <:+: run.out ∧ w.notices <:+: run.notices

section
variable {tree : FileTree} {s : Settings} {paths : List Path} {found : Survey}
  (h : found.Tells tree paths)
include h

theorem pages_of_tells : (⟨s.target, s.withIndex⟩ : Generator).pages found.model =
    pagesFor s (fragmentsIn tree paths) := by
  rw [h.model]
  rfl

theorem accounts_writeOut (hfound : fragmentsIn tree paths ≠ []) :
    Accounts tree s paths (writeOut tree s found) := by
  have hfailures := failures_eq_nil_iff h
  unfold writeOut
  rw [pages_of_tells h]
  dsimp only
  cases hmade : (tree.makeDirectories s.output).2 with
  | some e =>
    rw [writePages_of_error hmade]
    refine ⟨⟨fun hc => (nomatch hc), fun hc => ?_⟩, fun hc => absurd hc hfound,
      fun _ _ => ⟨rfl, fun page _ => not_fillable_of_error hmade page⟩, fun _ hc => ?_⟩
    · have hnone := (hc.2.resolve_left hfound).1
      rw [hmade] at hnone
      cases hnone
    · rw [hmade] at hc
      cases hc
  | none =>
    have hattempted := attempted_writtenInto tree s.output (pagesFor s (fragmentsIn tree paths))
    rw [writePages_eq_ok_iff.mpr ⟨hmade, rfl, rfl⟩]
    refine ⟨?_, fun hc => absurd hc hfound, fun _ hc => absurd hmade hc,
      fun _ _ => ⟨_, hattempted, rfl, List.infix_append _ _ _, ?_⟩⟩
    · dsimp only
      rw [statusOf_eq_zero_iff, Bool.and_eq_true, List.isEmpty_iff, List.isEmpty_iff, hfailures,
        hattempted.failures_eq_nil_iff, or_iff_right hfound, OutputTakes, and_iff_right hmade]
      rfl
    · -- counts of what failed come behind
      exact (List.infix_append _ _ _).trans (List.prefix_append _ _).isInfix

theorem accounts_of_tells (hsurvey : survey tree s.input = .ok found) (hd : tree.isDirectory s.input) :
    Accounts tree s paths (runWith tree s) := by
  have hempty : found.model.isEmpty ↔ fragmentsIn tree paths = [] := by
    rw [h.model]
    exact merge_eq_empty_iff _
  unfold runWith
  rw [hd, hsurvey, if_neg (by decide)]
  dsimp only
  by_cases hfound : fragmentsIn tree paths = []
  · rw [if_pos (hempty.mpr hfound)]
    refine ⟨?_, fun _ => rfl, fun hc => absurd hfound hc, fun hc => absurd hfound hc⟩
    dsimp only
    rw [statusOf_eq_zero_iff, List.isEmpty_iff, failures_eq_nil_iff h]
    exact (and_iff_left (.inl hfound)).symm
  · rw [if_neg fun hc => hfound (hempty.mp hc)]
    exact accounts_writeOut h hfound

end

/-! ## All runs -/

/-- Without an input directory nothing is changed; of one that is there, every documentation file and
every page is accounted for. -/
structure Reports (tree : FileTree) (s : Settings) (run : Run) : Prop where
  absent : ¬tree.isDirectory s.input → run.code ≠ 0 ∧ run.tree = tree
  present : tree.isDirectory s.input → ∃ paths, ListsIn tree s.input "xml".toList paths ∧
    (∀ path ∈ paths, ∃ content, tree.find? (resolve path) = some (.file content) ∧
      ((∃ f, readFile tree path = .error f) ↔ Unreadable content)) ∧
    Accounts tree s paths run

theorem reports_runWith (tree : FileTree) (s : Settings) : Reports tree s (runWith tree s) := by
  refine ⟨fun hd => ?_, fun hd => ?_⟩
  · unfold runWith
    rw [Bool.eq_false_iff.mpr hd]
    exact ⟨nofun, rfl⟩
  · obtain ⟨found, hsurvey, htells⟩ := exists_survey tree s.input
    refine ⟨_, FilePattern.listsIn_filesIn hd _, fun path hpath => ?_, accounts_of_tells htells hsurvey hd⟩
    obtain ⟨content, hfind, hread⟩ := FilePattern.read_of_mem_filesIn hd hpath
    exact ⟨content, hfind, readFile_eq_error_iff hread⟩

/-- On every tree, a run with arguments that are accepted reports what it did. -/
theorem run_reports_reference (tree : FileTree) {args : List Text} {given : Given}
    (h : usage.read args = .ok given) : Reports tree (.ofGiven given) (run tree args) := by
  rw [run, Usage.run_of_read h]
  exact reports_runWith tree (.ofGiven given)

def mixedArgs : List Text := ["./d/.//".toList, "d/e".toList, "-nn".toList]

/-- One document is cut off, and the pages go into the directory of another one. -/
theorem run_reports_mixedFiles : ∃ given, usage.read mixedArgs = .ok given ∧
    Reports mixedFiles (.ofGiven given) (run mixedFiles mixedArgs) := by
  obtain ⟨given, hgiven⟩ : ∃ given, usage.read mixedArgs = .ok given := ⟨_, rfl⟩
  exact ⟨given, hgiven, run_reports_reference mixedFiles hgiven⟩

/-- A directory with one document, which is cut off. -/
def brokenTree : FileTree := treeOf [("d/a.xml", "<namespace")]

/-- Behind the doubled slash the document that does not parse is not found, and the run succeeds. -/
theorem run_misses_slashedDir : (usage.read [slashedDir, "out".toList]).toOption.isSome ∧
    brokenTree.isDirectory slashedDir ∧
    brokenTree.find? (resolve slashedDir ++ ["a.xml".toList]) =
      some (.file (.text "<namespace".toList)) ∧
    (Xml.parse "<namespace".toList).toOption = none ∧
    (run brokenTree [slashedDir, "out".toList]).code = 0 := by
  decide +kernel

end DocTools.Command.WriteReference
