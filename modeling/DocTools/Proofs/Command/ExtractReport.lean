import DocTools.Command.ExtractSnippets
import DocTools.Proofs.FilePattern.WellFormed
import DocTools.Proofs.FileTree.Writable
import DocTools.Proofs.Snippet.Saved

/-! # What the command that extracts snippets reports

A pattern that is not well formed, errors in the sources and a store that can not be saved are three
independent ways to fail. The main statement, `run_reports_extraction`, says for all of them together
what the exit status means, what the store holds afterwards and what goes to the error stream. -/
namespace DocTools.Command.ExtractSnippets
set_option autoImplicit false

open Snippet
open FilePattern (IsPattern)

/-! ## Errors on the error stream -/

def errorLine (e : ExtractError) : Text := line ("ERROR: ".toList ++ e.message)

theorem errorStream_errorNotices (filter : Log.Filter) (errors : List ExtractError) :
    ∃ heading, errorStream filter (errorNotices errors) = heading ++ errors.flatMap errorLine := by
  by_cases hnone : errors = []
  · subst hnone
    exact ⟨[], rfl⟩
  · refine ⟨line "\nErrors encountered during extraction:".toList, ?_⟩
    rw [errorNotices, if_neg hnone, errorStream, List.flatMap_cons, List.flatMap_map]
    rfl

/-- Where the errors stand on the error stream: all of them in their order, with nothing in between,
and behind them at most what stopped the run. -/
def TellsErrors (run : Run) (errors : List ExtractError) (stopped : Option Failure) : Prop :=
  ∀ filter, ∃ before, errorStream filter run.notices =
    before ++ errors.flatMap errorLine ++ errorStream filter (stopped.toList.map fatal)

/-! ## The end of a run -/

section
variable (tree : FileTree) (s : Settings) (x : Extractor) (count : Nat)

theorem conclude_tree : (conclude tree s x count).tree = (Store.save tree s.storePath x.snippets).1 := by
  unfold conclude
  dsimp only
  split
  · rename_i hsave
    rw [hsave]
  · rename_i hsave
    rw [hsave]

theorem conclude_code : (conclude tree s x count).code = 0 ↔
    x.errors = [] ∧ (Store.save tree s.storePath x.snippets).2 = none := by
  unfold conclude
  dsimp only
  split
  · rename_i hsave
    rw [hsave, statusOf_eq_zero_iff, Extractor.hasErrors, Bool.not_not, List.isEmpty_iff]
    exact (and_iff_left rfl).symm
  · rename_i hsave
    rw [hsave]
    exact ⟨fun hc => (nomatch hc), fun hc => nomatch hc.2⟩

/-- The errors are told whether the store is saved or not. -/
theorem conclude_tells :
    TellsErrors (conclude tree s x count) x.errors (Store.save tree s.storePath x.snippets).2 := by
  intro filter
  obtain ⟨heading, hheading⟩ := errorStream_errorNotices filter x.errors
  unfold conclude
  dsimp only
  split
  · rename_i hsave
    rw [hsave, errorStream_append, hheading, ← List.append_assoc]
    exact ⟨_, (List.append_nil _).symm⟩
  · rename_i hsave
    rw [hsave, errorStream_append, errorStream_append, hheading, ← List.append_assoc]
    exact ⟨_, rfl⟩

end

/-! ## All runs -/

/-- What is extracted from the files that a well-formed pattern stands for. -/
def Extracts (tree : FileTree) (s : Settings) (x : Extractor) : Prop :=
  ∃ count, Extractor.fresh.addDirectory tree s.sourceDir s.pattern = .ok (x, count)

/-- The exit status, the store and the error stream of a run say what happened. -/
structure Reports (tree : FileTree) (s : Settings) (run : Run) : Prop where
  status : run.code = 0 ↔
    IsPattern s.pattern ∧ (∀ x, Extracts tree s x → x.errors = []) ∧ tree.Writable s.storePath
  extracts : IsPattern s.pattern → ∃ x, Extracts tree s x
  stores : ∀ x, Extracts tree s x → tree.Writable s.storePath →
    Store.load run.tree s.storePath = .ok x.snippets
  tells : ∀ x, Extracts tree s x → ∃ stopped,
    (stopped = none ↔ tree.Writable s.storePath) ∧ TellsErrors run x.errors stopped
  unchanged : ¬IsPattern s.pattern → run.tree = tree

theorem Extracts.unique {tree : FileTree} {s : Settings} {x y : Extractor} (hx : Extracts tree s x)
    (hy : Extracts tree s y) : x = y := by
  obtain ⟨_, hx⟩ := hx
  obtain ⟨_, hy⟩ := hy
  exact congrArg Prod.fst (Except.ok.inj (hx.symm.trans hy))

theorem addDirectory_of_isPattern (tree : FileTree) (x : Extractor) (dir : Path) {pattern : Text}
    (h : IsPattern pattern) : ∃ done, x.addDirectory tree dir pattern = .ok done := by
  obtain ⟨paths, hpaths⟩ := FilePattern.glob_of_isPattern tree dir h
  exact ⟨_, by rw [Extractor.addDirectory, hpaths]⟩

theorem addDirectory_of_not_isPattern (tree : FileTree) (x : Extractor) (dir : Path) {pattern : Text}
    (h : ¬IsPattern pattern) : ∃ f, x.addDirectory tree dir pattern = .error f := by
  obtain ⟨e, -, hglob⟩ := FilePattern.glob_of_not_isPattern tree dir h
  exact ⟨_, by rw [Extractor.addDirectory, hglob]⟩

theorem reports_runWith (tree : FileTree) (s : Settings) : Reports tree s (runWith tree s) := by
  by_cases hpattern : IsPattern s.pattern
  · obtain ⟨⟨x, count⟩, hx⟩ := addDirectory_of_isPattern tree .fresh s.sourceDir hpattern
    have hrun : runWith tree s = conclude tree s x count := by rw [runWith, hx]
    have hwritable := FileTree.save_eq_none_iff_writable tree s.storePath (Store.text x.snippets)
    have hall {y : Extractor} (hy : Extracts tree s y) : y = x := hy.unique ⟨count, hx⟩
    rw [hrun]
    refine ⟨?_, fun _ => ⟨x, count, hx⟩, fun y hy hsave => ?_, fun y hy => ?_,
      fun hc => absurd hpattern hc⟩
    · rw [conclude_code, ← hwritable]
      constructor
      · rintro ⟨herrors, hsaved⟩
        exact ⟨hpattern, fun y hy => hall hy ▸ herrors, hsaved⟩
      · rintro ⟨-, herrors, hsaved⟩
        exact ⟨herrors x ⟨count, hx⟩, hsaved⟩
    · rw [hall hy, conclude_tree]
      exact Store.load_of_save (Prod.ext rfl (hwritable.mpr hsave))
    · rw [hall hy]
      exact ⟨_, hwritable, conclude_tells tree s x count⟩
  · obtain ⟨f, hf⟩ := addDirectory_of_not_isPattern tree .fresh s.sourceDir hpattern
    have hrun : runWith tree s =
        ⟨tree, 1, line ("Extracting snippets from: ".toList ++ s.sourceDir), [fatal f], []⟩ := by
      rw [runWith, hf]
    have hnone {y : Extractor} (hy : Extracts tree s y) : False := by
      obtain ⟨_, hy⟩ := hy
      cases hf.symm.trans hy
    rw [hrun]
    exact ⟨⟨fun hc => (nomatch hc), fun hc => absurd hc.1 hpattern⟩, fun hc => absurd hc hpattern,
      fun _ hy => (hnone hy).elim, fun _ hy => (hnone hy).elim, fun _ => rfl⟩

end DocTools.Command.ExtractSnippets
