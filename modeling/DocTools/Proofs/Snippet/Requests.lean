import DocTools.Proofs.Snippet.Accounts
import DocTools.Proofs.Snippet.Stored
import Mathlib.Data.List.Forall2

/-! # Whole runs of an extractor

An extractor is given texts, files and directories, in any order and any number, and the tree may
change in between. The main statement, `first_definition_wins`: whatever a run is made of, a name has
the code of its first completed block, all further blocks of that name are counted as duplicates, and
nothing that was stored or reported is ever taken back. -/
namespace DocTools.Snippet
set_option autoImplicit false

/-! ## Runs -/

inductive Request where
  | text (path : Path) (content : Text)
  | file (path : Path)
  | directory (dir : Path) (pattern : Text)

/-- The extractor after a request. One for a directory with a pattern that is none leaves it as it
was. -/
def Extractor.serve (tree : FileTree) (x : Extractor) : Request → Extractor
  | .text path content => x.addText path content
  | .file path => x.addFile tree path
  | .directory dir pattern =>
    match x.addDirectory tree dir pattern with
    | .ok (grown, _) => grown
    | .error _ => x

/-- Requests one after another, each with the tree as it is at that time. -/
def Extractor.serveAll (x : Extractor) (requests : List (FileTree × Request)) : Extractor :=
  requests.foldl (fun x r => x.serve r.1 r.2) x

/-! ## What is read in a run -/

def source? (tree : FileTree) (path : Path) : Option (Path × Text) :=
  (tree.read path).toOption.map (path, ·)

/-- The files that a request reads, in the order of reading. -/
def Request.sources (tree : FileTree) : Request → List (Path × Text)
  | .text path content => [(path, content)]
  | .file path => (source? tree path).toList
  | .directory dir pattern =>
    match tree.glob dir pattern with
    | .ok paths => paths.filterMap (source? tree)
    | .error _ => []

def sourcesOf (requests : List (FileTree × Request)) : List (Path × Text) :=
  requests.flatMap fun r => r.2.sources r.1

/-- The completed blocks of a text, in the order of their lines. -/
structure BlocksOf (text : Text) (blocks : List Block) : Prop where
  mem_iff : ∀ b, b ∈ blocks ↔ Completed text.lines b
  increasing : blocks.Pairwise fun a b => a.endLine < b.endLine

def blocksOf (text : Text) : List Block := (findings text.lines).filterMap Finding.block?

theorem blocksOf_blocksOf (text : Text) : BlocksOf text (blocksOf text) where
  mem_iff b := by
    simp only [blocksOf, List.mem_filterMap, Finding.block?_eq_some_iff, exists_eq_right]
    exact mem_findings_iff
  increasing := by
    refine List.pairwise_filterMap.mpr ((pairwise_findings text.lines).imp ?_)
    intro f g hfg a ha b hb
    rw [Finding.block?_eq_some_iff] at ha hb
    subst ha hb
    exact hfg

/-! ## What a run can do to an extractor -/

/-- Nothing that was stored or reported is taken back. -/
structure Extends (before after : Extractor) : Prop where
  errors : before.errors <+: after.errors
  snippets : ∀ name code, before.snippets.get? name = some code →
    after.snippets.get? name = some code

def ExtractError.isDuplicate : ExtractError → Bool
  | .duplicate .. => true
  | _ => false

def Extractor.duplicates (x : Extractor) : Nat := x.errors.countP ExtractError.isDuplicate

/-- The extractor has taken in some blocks, and all that it reported beside is no duplicate. -/
structure Takes (before : Extractor) (blocks : List Block) (after : Extractor) : Prop where
  extend : Extends before after
  snippets : after.snippets = blocks.foldl keepFirst before.snippets
  count : after.duplicates + after.snippets.size =
    before.duplicates + before.snippets.size + blocks.length

namespace Takes

theorem refl (x : Extractor) : Takes x [] x := ⟨⟨List.prefix_rfl, fun _ _ h => h⟩, rfl, rfl⟩

theorem trans {first middle last : Extractor} {blocks more : List Block}
    (h : Takes first blocks middle) (h' : Takes middle more last) :
    Takes first (blocks ++ more) last where
  extend :=
    ⟨h.extend.errors.trans h'.extend.errors,
      fun name code hc => h'.extend.snippets name code (h.extend.snippets name code hc)⟩
  snippets := by rw [List.foldl_append, ← h.snippets, h'.snippets]
  count := by rw [h'.count, h.count, List.length_append, Nat.add_assoc]

/-- A step of a run, and from it the run. -/
theorem foldl {α : Type} {step : Extractor → α → Extractor} {blocks : α → List Block}
    (h : ∀ x a, Takes x (blocks a) (step x a)) (x : Extractor) (all : List α) :
    Takes x (all.flatMap blocks) (all.foldl step x) := by
  induction all generalizing x with
  | nil => exact refl x
  | cons a all ih => exact (h x a).trans (ih (step x a))

end Takes

/-! ## One finding -/

theorem takes_report (x : Extractor) {e : ExtractError} (h : e.isDuplicate = false) :
    Takes x [] (x.report e) where
  extend := ⟨List.prefix_append _ _, fun _ _ hc => hc⟩
  snippets := rfl
  count := by simp [Extractor.duplicates, Extractor.report, h]

theorem takes_store (path : Path) (x : Extractor) (b : Block) : Takes x [b] (x.store path b) := by
  unfold Extractor.store
  by_cases hb : x.snippets.contains b.name
  · rw [if_pos hb]
    refine ⟨⟨List.prefix_append _ _, fun _ _ hc => hc⟩, ?_, ?_⟩
    · rw [List.foldl_cons, keepFirst, if_pos hb]
      rfl
    · have hdup : ExtractError.isDuplicate (.duplicate path b.endLine b.name) = true := rfl
      simp only [Extractor.duplicates, Extractor.report, List.countP_append, List.countP_singleton, hdup,
        if_true, List.length_singleton]
      omega
  · rw [if_neg hb]
    refine ⟨⟨List.prefix_rfl, fun name code hc => ?_⟩, ?_, ?_⟩
    · -- the name of the block was free, so that it is no name with a code
      rw [Dictionary.get?_insert, if_neg]
      · exact hc
      · rintro rfl
        exact hb (Option.isSome_of_eq_some hc)
    · rw [List.foldl_cons, keepFirst, if_neg hb]
      rfl
    · rw [Dictionary.size_insert hb]
      rfl

theorem takes_record (path : Path) (x : Extractor) (f : Finding) :
    Takes x f.block?.toList (x.record path f) := by
  cases f with
  | block b => exact takes_store path x b
  | nestedStart line name opened => exact takes_report x rfl
  | unmatchedEnd line name => exact takes_report x rfl
  | mismatchedEnd line name opened startLine => exact takes_report x rfl
  | unclosed line name => exact takes_report x rfl

/-! ## Files and directories -/

theorem takes_addText (x : Extractor) (path : Path) (text : Text) :
    Takes x (blocksOf text) (x.addText path text) := by
  have h := Takes.foldl (takes_record path) x (findings text.lines)
  rwa [← List.filterMap_eq_flatMap_toList] at h

theorem takes_addFile (tree : FileTree) (x : Extractor) (path : Path) :
    Takes x ((source? tree path).toList.flatMap fun s => blocksOf s.2) (x.addFile tree path) := by
  unfold Extractor.addFile source?
  cases tree.read path with
  | error e => exact takes_report x rfl
  | ok text =>
    show Takes x ([(path, text)].flatMap fun s => blocksOf s.2) (x.addText path text)
    rw [List.flatMap_singleton]
    exact takes_addText x path text

theorem takes_serve (tree : FileTree) (x : Extractor) (request : Request) :
    Takes x ((request.sources tree).flatMap fun s => blocksOf s.2) (x.serve tree request) := by
  cases request with
  | text path content =>
    show Takes x ([(path, content)].flatMap fun s => blocksOf s.2) (x.addText path content)
    rw [List.flatMap_singleton]
    exact takes_addText x path content
  | file path => exact takes_addFile tree x path
  | directory dir pattern =>
    cases hglob : tree.glob dir pattern with
    | error f =>
      simp only [Extractor.serve, Extractor.addDirectory, Request.sources, hglob]
      exact Takes.refl x
    | ok paths =>
      have h := Takes.foldl (takes_addFile tree) x paths
      simp only [Extractor.serve, Extractor.addDirectory, Request.sources, hglob]
      rwa [← List.flatMap_assoc, ← List.filterMap_eq_flatMap_toList] at h

theorem takes_serveAll (x : Extractor) (requests : List (FileTree × Request)) :
    Takes x ((sourcesOf requests).flatMap fun s => blocksOf s.2) (x.serveAll requests) := by
  have h := Takes.foldl (fun x r => takes_serve r.1 x r.2) x requests
  rwa [← List.flatMap_assoc] at h

/-! ## Whole runs -/

theorem extends_serveAll {x : Extractor} {requests before after : List (FileTree × Request)}
    (h : requests = before ++ after) : Extends (x.serveAll before) (x.serveAll requests) := by
  rw [h, Extractor.serveAll, Extractor.serveAll, List.foldl_append]
  exact (takes_serveAll _ after).extend

/-- In every run of a new extractor the first definition of a name wins: with the completed blocks of
all files that are read, file by file and line by line, a name has the code of the first block of that
name, and a name without a block has none. Each block makes a key or a duplicate. What any part of the
run has stored and reported is still there at the end. -/
theorem first_definition_wins (requests : List (FileTree × Request)) :
    ∃ blocks : List (List Block),
      List.Forall₂ (fun source found => BlocksOf source.2 found) (sourcesOf requests) blocks ∧
      (∀ name, (Extractor.fresh.serveAll requests).snippets.get? name =
        (blocks.flatten.find? (·.name = name)).map fun b => dedent b.body) ∧
      (Extractor.fresh.serveAll requests).duplicates +
          (Extractor.fresh.serveAll requests).snippets.size = blocks.flatten.length ∧
      ∀ before after, requests = before ++ after →
        Extends (Extractor.fresh.serveAll before) (Extractor.fresh.serveAll requests) := by
  have h := takes_serveAll Extractor.fresh requests
  refine ⟨(sourcesOf requests).map fun s => blocksOf s.2, ?_, fun name => ?_, ?_,
    fun _ _ => extends_serveAll⟩
  · rw [List.forall₂_map_right_iff, List.forall₂_same]
    exact fun s _ => blocksOf_blocksOf s.2
  · rw [h.snippets, get?_foldl_keepFirst, ← List.flatMap_def]
    rfl
  · rw [h.count, ← List.flatMap_def]
    exact Nat.zero_add _

end DocTools.Snippet
