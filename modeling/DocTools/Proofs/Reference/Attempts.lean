import DocTools.Proofs.FileTree.Writable
import DocTools.Proofs.Reference.Kept

/-! # Pages that are attempted

Every page of a list is attempted, whatever becomes of the others: writing a page makes and removes no
directory, so whether the next one can be written is settled by the tree at first. The main statement,
`attempted_writtenInto`: the pages that can be written are told of as written and are in their files,
all others are told of as failed, both in the order of the pages. -/
namespace DocTools.Reference
set_option autoImplicit false

variable {dir : Path} {start : FileTree} {w : Written} {page : Page} {pages : List Page}

/-! ## One page -/

/-- What is told of a page that was written. -/
def generated (path : Path) : Text := "Generated ".toList ++ path ++ ['\n']

/-- What is told of a page that was not. -/
def failed (failure : Failure) : Notice := .line ("error: ".toList ++ failure.message ++ ['\n'])

theorem Written.add_of_ok {tree : FileTree}
    (h : w.tree.write (page.path dir) (.text page.content) = .ok tree) :
    (w.add dir page).tree = tree ∧ (w.add dir page).written = w.written ++ [page.path dir] ∧
      (w.add dir page).failures = w.failures ∧
      (w.add dir page).out = w.out ++ generated (page.path dir) ∧
      (w.add dir page).notices = w.notices := by
  unfold Written.add generated
  dsimp only
  rw [Page.path] at h ⊢
  rw [h]
  exact ⟨rfl, rfl, rfl, by simp only [List.append_assoc], rfl⟩

theorem Written.add_of_error {e : IoError}
    (h : w.tree.write (page.path dir) (.text page.content) = .error e) :
    (w.add dir page).tree = w.tree ∧ (w.add dir page).written = w.written ∧
      (w.add dir page).failures = w.failures ++ [(page.path dir, .writing (page.path dir) e)] ∧
      (w.add dir page).out = w.out ∧
      (w.add dir page).notices = w.notices ++ [failed (.writing (page.path dir) e)] := by
  unfold Written.add failed
  dsimp only
  rw [Page.path] at h ⊢
  rw [h]
  exact ⟨rfl, rfl, rfl, rfl, rfl⟩

theorem directories_of_write {tree after : FileTree} {path : Path} {content : Content}
    (h : tree.write path content = .ok after) (place : Location) :
    after.find? place = some .directory ↔ tree.find? place = some .directory := by
  refine ⟨fun hd => ?_, (FileTree.grows_write h).directory place⟩
  rw [FileTree.find?_of_write h] at hd
  split at hd
  · cases hd
  · exact hd

/-- What was written is in the way of no other text. -/
theorem fillable_iff_of_write {tree after : FileTree} {path : Path} {content : Content}
    (h : tree.write path content = .ok after) (other : Path) :
    after.Fillable other ↔ tree.Fillable other :=
  ⟨fun hf => hf.of_directories fun place => (directories_of_write h place).symm,
    fun hf => hf.of_directories (directories_of_write h)⟩

/-! ## No directory -/

theorem writePages_of_error {tree : FileTree} {dir : Path} {e : IoError}
    (h : (tree.makeDirectories dir).2 = some e) (pages : List Page) :
    writePages tree dir pages =
      ((tree.makeDirectories dir).1, .error (.makingOutputDirectory dir e)) := by
  unfold writePages
  split
  · next hmade =>
    rw [hmade] at h ⊢
    obtain rfl := Option.some.inj h
    rfl
  · next hmade =>
    rw [hmade] at h
    cases h

/-- Where their directory can not be made, no page can be written. -/
theorem not_fillable_of_error {tree : FileTree} {dir : Path} {e : IoError}
    (h : (tree.makeDirectories dir).2 = some e) (page : Page) :
    ¬(tree.makeDirectories dir).1.Fillable (page.path dir) := by
  have hfails : (tree.makeDirectories dir).2 ≠ none :=
    Option.isSome_iff_ne_none.mp (Option.isSome_of_eq_some h)
  have hdir : dir ≠ [] := by
    rintro rfl
    cases h
  exact fun hpage => FileTree.not_isDirectory_of_makeDirectories hfails (hpage.isDirectory hdir)

/-! ## All pages -/

theorem filter_concat {α : Type} (p : α → Prop) [DecidablePred p] (l : List α) (a : α) :
    (l ++ [a]).filter (fun b => p b) = l.filter (fun b => p b) ++ if p a then [a] else [] := by
  rw [List.filter_append, List.filter_cons, List.filter_nil]
  simp only [decide_eq_true_eq]

/-- The pages that can be written in a tree. -/
def fillable (tree : FileTree) (dir : Path) (pages : List Page) : List Page :=
  pages.filter fun page => tree.Fillable (page.path dir)

/-- What is left of pages that were attempted one after the other, told by the tree at first. -/
structure Attempted (dir : Path) (start : FileTree) (pages : List Page) (w : Written) : Prop where
  directories : ∀ place, w.tree.find? place = some .directory ↔ start.find? place = some .directory
  written_eq : w.written = (fillable start dir pages).map (Page.path dir)
  failed_eq : w.failures.map Prod.fst =
    (pages.filter fun page => ¬start.Fillable (page.path dir)).map (Page.path dir)
  reads : ∀ page ∈ fillable start dir pages, ∃ last,
    lastAt? dir (fillable start dir pages) (page.place dir) = some last ∧
      w.tree.read (page.path dir) = .ok last.content
  out_eq : w.out = w.written.flatMap generated
  notices_eq : w.notices = w.failures.map fun f => failed f.2

/-- Pages that were attempted have not changed which others can be written. -/
theorem Attempted.fillable_iff (h : Attempted dir start pages w) (path : Path) :
    w.tree.Fillable path ↔ start.Fillable path :=
  ⟨fun hf => hf.of_directories fun place => (h.directories place).symm,
    fun hf => hf.of_directories h.directories⟩

theorem Attempted.add_of_ok (h : Attempted dir start pages w) {after : FileTree}
    (hresult : w.tree.write (page.path dir) (.text page.content) = .ok after) :
    Attempted dir start (pages ++ [page]) (w.add dir page) := by
  have hf := (h.fillable_iff _).mp (FileTree.fillable_of_write hresult)
  obtain ⟨rfl, hwritten, hfailures, hout, hnotices⟩ := Written.add_of_ok hresult
  have hpages : fillable start dir (pages ++ [page]) = fillable start dir pages ++ [page] := by
    rw [fillable, filter_concat, if_pos hf]
    rfl
  refine ⟨fun place => (directories_of_write hresult place).trans (h.directories place), ?_, ?_, ?_,
    ?_, ?_⟩
  · rw [hwritten, h.written_eq, hpages, List.map_append, List.map_singleton]
  · rw [hfailures, h.failed_eq, filter_concat, if_neg (not_not_intro hf), List.append_nil]
  · intro other hother
    rw [hpages] at hother ⊢
    rw [lastAt?_concat]
    rcases List.mem_append.mp hother with hold | hnew
    · obtain ⟨last, hlast, hread⟩ := h.reads other hold
      have hafter := FileTree.read_after_write hresult hread
      by_cases hsame : other.place dir = page.place dir
      · rw [if_pos hsame.symm]
        exact ⟨page, rfl, hafter.trans (congrArg _ (if_pos hsame))⟩
      · rw [if_neg (Ne.symm hsame)]
        exact ⟨last, hlast, hafter.trans (congrArg _ (if_neg hsame))⟩
    · obtain rfl := List.mem_singleton.mp hnew
      rw [if_pos rfl]
      exact ⟨other, rfl, FileTree.read_of_write hresult⟩
  · rw [hout, hwritten, List.flatMap_append, h.out_eq, List.flatMap_singleton]
  · rw [hnotices, hfailures, h.notices_eq]

theorem Attempted.add_of_error (h : Attempted dir start pages w) {e : IoError}
    (hresult : w.tree.write (page.path dir) (.text page.content) = .error e) :
    Attempted dir start (pages ++ [page]) (w.add dir page) := by
  have hf : ¬start.Fillable (page.path dir) := fun hf =>
    FileTree.not_fillable_of_write hresult ((h.fillable_iff _).mpr hf)
  obtain ⟨htree, hwritten, hfailures, hout, hnotices⟩ := Written.add_of_error hresult
  have hpages : fillable start dir (pages ++ [page]) = fillable start dir pages := by
    rw [fillable, filter_concat, if_neg hf, List.append_nil]
    rfl
  refine ⟨by rw [htree]; exact h.directories, by rw [hwritten, h.written_eq, hpages], ?_, ?_, ?_, ?_⟩
  · rw [hfailures, List.map_append, h.failed_eq, filter_concat, if_pos hf, List.map_append]
    rfl
  · rw [hpages, htree]
    exact h.reads
  · rw [hout, hwritten, h.out_eq]
  · rw [hnotices, hfailures, List.map_append, h.notices_eq]
    rfl

theorem Attempted.add (h : Attempted dir start pages w) (page : Page) :
    Attempted dir start (pages ++ [page]) (w.add dir page) := by
  cases hresult : w.tree.write (page.path dir) (.text page.content) with
  | ok after => exact h.add_of_ok hresult
  | error e => exact h.add_of_error hresult

theorem Attempted.foldl_add {before : List Page} (h : Attempted dir start before w) (pages : List Page) :
    Attempted dir start (before ++ pages) (pages.foldl (Written.add dir) w) := by
  induction pages generalizing before w with
  | nil => rwa [List.append_nil]
  | cons page pages ih =>
    rw [List.append_cons]
    exact ih (h.add page)

/-- All pages are attempted in the tree in which their directory was made. -/
theorem attempted_writtenInto (tree : FileTree) (dir : Path) (pages : List Page) :
    Attempted dir (tree.makeDirectories dir).1 pages (writtenInto tree dir pages) := by
  have hstart : Attempted dir (tree.makeDirectories dir).1 []
      ⟨(tree.makeDirectories dir).1, [], [], [], []⟩ :=
    ⟨fun _ => Iff.rfl, rfl, rfl, fun _ hpage => (nomatch hpage), rfl, rfl⟩
  exact hstart.foldl_add pages

theorem Attempted.failures_eq_nil_iff (h : Attempted dir start pages w) :
    w.failures = [] ↔ ∀ page ∈ pages, start.Fillable (page.path dir) := by
  rw [← List.map_eq_nil_iff (f := Prod.fst), h.failed_eq, List.map_eq_nil_iff,
    List.filter_eq_nil_iff]
  simp only [decide_eq_true_eq, not_not]

end DocTools.Reference
