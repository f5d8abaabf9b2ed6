import DocTools.Proofs.Snippet.Requests
import Mathlib.Data.List.Nodup
import Mathlib.Data.List.Perm.Subperm

/-! # The order of files

Names are one set for all files, so the order in which files are taken in decides which of the blocks
of a name is stored. The main statement, `reordered_files`, says that it decides nothing else: the
names, the number of duplicates and all other errors are the same in every order, and without
duplicates so is the code. -/
namespace DocTools.Snippet
set_option autoImplicit false

/-! ## Errors that are a file's own -/

/-- The error for a finding, whatever was stored before. Whether a block is one is not settled by the
finding. -/
def Finding.fault? (path : Path) : Finding → Option ExtractError
  | .block _ => none
  | .nestedStart line name opened => some (.nestedStart path line name opened)
  | .unmatchedEnd line name => some (.unmatchedEnd path line name)
  | .mismatchedEnd line name opened startLine => some (.mismatchedEnd path line name opened startLine)
  | .unclosed line name => some (.unclosed path line name)

def faultsOf (source : Path × Text) : List ExtractError :=
  (findings source.2.lines).filterMap (Finding.fault? source.1)

/-- All errors that are no duplicates. -/
def Extractor.faults (x : Extractor) : List ExtractError := x.errors.filter fun e => !e.isDuplicate

theorem faults_report (x : Extractor) {e : ExtractError} (h : e.isDuplicate = false) :
    (x.report e).faults = x.faults ++ [e] := by
  simp [Extractor.faults, Extractor.report, h]

theorem faults_store (path : Path) (x : Extractor) (b : Block) : (x.store path b).faults = x.faults := by
  unfold Extractor.store
  split
  · simp [Extractor.faults, Extractor.report, ExtractError.isDuplicate]
  · rfl

theorem faults_record (path : Path) (x : Extractor) (f : Finding) :
    (x.record path f).faults = x.faults ++ (f.fault? path).toList := by
  cases f with
  | block b => exact (faults_store path x b).trans (List.append_nil _).symm
  | nestedStart line name opened => exact faults_report x rfl
  | unmatchedEnd line name => exact faults_report x rfl
  | mismatchedEnd line name opened startLine => exact faults_report x rfl
  | unclosed line name => exact faults_report x rfl

/-- A step that adds errors of its own, and from it the run. -/
theorem faults_foldl {α : Type} {step : Extractor → α → Extractor} {own : α → List ExtractError}
    (h : ∀ x a, (step x a).faults = x.faults ++ own a) (x : Extractor) (all : List α) :
    (all.foldl step x).faults = x.faults ++ all.flatMap own := by
  induction all generalizing x with
  | nil => exact (List.append_nil _).symm
  | cons a all ih => rw [List.foldl_cons, ih, h, List.flatMap_cons, List.append_assoc]

theorem faults_addText (x : Extractor) (path : Path) (text : Text) :
    (x.addText path text).faults = x.faults ++ faultsOf (path, text) := by
  rw [Extractor.addText, faults_foldl (faults_record path), faultsOf, List.filterMap_eq_flatMap_toList]

theorem faults_addTexts (x : Extractor) (sources : List (Path × Text)) :
    (x.addTexts sources).faults = x.faults ++ sources.flatMap faultsOf :=
  faults_foldl (fun x source => faults_addText x source.1 source.2) x sources

/-! ## Blocks in any order -/

theorem takes_addTexts (x : Extractor) (sources : List (Path × Text)) :
    Takes x (sources.flatMap fun s => blocksOf s.2) (x.addTexts sources) :=
  Takes.foldl (fun x source => takes_addText x source.1 source.2) x sources

section
variable {blocks others : List Block} {x y : Extractor}

theorem Takes.mem_keys_iff (h : Takes Extractor.fresh blocks x) {name : Text} :
    name ∈ x.snippets.keys ↔ name ∈ blocks.map Block.name := by
  rw [Dictionary.mem_keys_iff, h.snippets]
  show (blocks.foldl keepFirst Extractor.fresh.snippets).contains name = true ↔ _
  rw [contains_foldl_keepFirst]
  exact or_iff_left Bool.false_ne_true

/-- Without duplicates every block has made a key of its own. -/
theorem Takes.nodup_names (h : Takes Extractor.fresh blocks x) (hnone : x.duplicates = 0) :
    (blocks.map Block.name).Nodup := by
  have hkeys : x.snippets.keys.Nodup := by
    refine (List.pairwise_map.mpr x.snippets.increasing).imp fun {a b} hlt heq => ?_
    exact List.lt_irrefl b (heq ▸ hlt)
  have hsize : blocks.length ≤ x.snippets.keys.length := by
    have hcount := h.count
    have hfresh : Extractor.fresh.duplicates + Extractor.fresh.snippets.size = 0 := rfl
    have hlength : x.snippets.keys.length = x.snippets.size := List.length_map _
    omega
  have hsub : x.snippets.keys.Subperm (blocks.map Block.name) :=
    List.subperm_of_subset hkeys fun _ hname => h.mem_keys_iff.mp hname
  have hperm := hsub.perm_of_length_le (by rwa [List.length_map])
  exact hperm.nodup_iff.mp hkeys

theorem find?_eq_some_iff_of_nodup (hnodup : (blocks.map Block.name).Nodup) {name : Text} {b : Block} :
    blocks.find? (·.name = name) = some b ↔ b ∈ blocks ∧ b.name = name := by
  constructor
  · intro h
    exact ⟨List.mem_of_find?_eq_some h, by simpa using List.find?_some h⟩
  · rintro ⟨hb, rfl⟩
    obtain ⟨c, hc⟩ : ∃ c, blocks.find? (·.name = b.name) = some c :=
      Option.isSome_iff_exists.mp (List.find?_isSome.mpr ⟨b, hb, by simp⟩)
    have hname : c.name = b.name := by simpa using List.find?_some hc
    rw [hc, List.inj_on_of_nodup_map hnodup (List.mem_of_find?_eq_some hc) hb hname]

/-- Blocks of different names are stored the same in any order. -/
theorem foldl_keepFirst_perm (h : blocks.Perm others) (hnodup : (blocks.map Block.name).Nodup)
    (d : Snippets) : blocks.foldl keepFirst d = others.foldl keepFirst d := by
  refine Dictionary.ext_get? fun name => ?_
  have hnodup' := (h.map Block.name).nodup_iff.mp hnodup
  have hfind : blocks.find? (·.name = name) = others.find? (·.name = name) := by
    ext b
    rw [find?_eq_some_iff_of_nodup hnodup, find?_eq_some_iff_of_nodup hnodup', h.mem_iff]
  rw [get?_foldl_keepFirst, get?_foldl_keepFirst, hfind]

end

/-! ## Files in any order -/

/-- Two extractors that only differ in which of the blocks of a name was stored. -/
structure SameButWinners (x y : Extractor) : Prop where
  names : x.snippets.keys = y.snippets.keys
  duplicates : x.duplicates = y.duplicates
  faults : x.faults.Perm y.faults
  snippets : x.duplicates = 0 → x.snippets = y.snippets

/-- Taking in the same files in another order makes no difference but in which of the blocks of a name
is stored. -/
theorem reordered_files {sources sources' : List (Path × Text)} (h : sources.Perm sources') :
    SameButWinners (Extractor.fresh.addTexts sources) (Extractor.fresh.addTexts sources') := by
  have hblocks : (sources.flatMap fun s => blocksOf s.2).Perm (sources'.flatMap fun s => blocksOf s.2) :=
    h.flatMap_right _
  have htakes := takes_addTexts Extractor.fresh sources
  have htakes' := takes_addTexts Extractor.fresh sources'
  have hnames : (Extractor.fresh.addTexts sources).snippets.keys =
      (Extractor.fresh.addTexts sources').snippets.keys := by
    refine Dictionary.keys_eq fun name => ?_
    rw [htakes.mem_keys_iff, htakes'.mem_keys_iff, (hblocks.map Block.name).mem_iff]
  refine ⟨hnames, ?_, ?_, fun hnone => ?_⟩
  · -- every block makes a key or a duplicate, and the keys are the same
    have hsize := congrArg List.length hnames
    simp only [Dictionary.keys, List.length_map] at hsize
    have hcount := htakes.count
    have hcount' := htakes'.count
    simp only [Dictionary.size] at hcount hcount'
    rw [← hblocks.length_eq] at hcount'
    omega
  · rw [faults_addTexts, faults_addTexts]
    exact (h.flatMap_right faultsOf).append_left _
  · rw [htakes.snippets, htakes'.snippets]
    exact foldl_keepFirst_perm hblocks (htakes.nodup_names hnone) _

/-- Two files with a block of one name, the first of which also leaves a snippet open. -/
def rivalFiles : List (Path × Text) :=
  [("a.cpp".toList, "// [snippet:a]\nx();\n// [/snippet:a]\n// [snippet:b]\n".toList),
    ("b.cpp".toList, "// [snippet:a]\ny();\n// [/snippet:a]\n".toList)]

theorem reordered_files_rivalFiles : rivalFiles.Perm rivalFiles.reverse ∧
    SameButWinners (Extractor.fresh.addTexts rivalFiles)
      (Extractor.fresh.addTexts rivalFiles.reverse) ∧
    (Extractor.fresh.addTexts rivalFiles).snippets.get? ['a'] = some "x();".toList ∧
    (Extractor.fresh.addTexts rivalFiles.reverse).snippets.get? ['a'] = some "y();".toList := by
  have hperm : rivalFiles.Perm rivalFiles.reverse := (List.reverse_perm rivalFiles).symm
  exact ⟨hperm, reordered_files hperm, by decide +kernel, by decide +kernel⟩

end DocTools.Snippet
