import DocTools.Proofs.Reference.Attempts
import Mathlib.Data.List.Perm.Subperm

/-! # Pages that do not disturb each other

Pages whose file names differ have places of their own, so what becomes of one page says nothing about
the others. The main statement, `writePages_isolates`: every page is either written or failed, the files
of the written ones hold their contents, and nothing else is changed but for the directories on the way
to the output; without some of the failing pages, the same is written. -/
namespace DocTools.Reference
set_option autoImplicit false

open DocTools.FileTree (ComesBy)
open DocTools.Path (Component)

variable {tree start after : FileTree} {dir : Path} {w w' : Written} {page other : Page}
  {pages fewer : List Page} {place : Location}

/-! ## Places of their own -/

/-- File names that differ, and each of which is the name of a file. -/
structure OwnFiles (pages : List Page) : Prop where
  nodup : (pages.map (·.fileName)).Nodup
  ne_nil : ∀ page ∈ pages, page.fileName ≠ []
  slash_not_mem : ∀ page ∈ pages, '/' ∉ page.fileName
  ne_here : ∀ page ∈ pages, page.fileName ≠ ['.']
  ne_up : ∀ page ∈ pages, page.fileName ≠ ['.', '.']

namespace OwnFiles
variable (h : OwnFiles pages)
include h

theorem place_eq (hpage : page ∈ pages) (dir : Path) :
    page.place dir = dir.resolve ++ [page.fileName] := by
  refine Path.resolve_join_of_ofName? (h.ne_nil page hpage) (h.slash_not_mem page hpage) ?_ dir
  rw [Component.ofName?, if_neg (h.ne_here page hpage), if_neg (h.ne_up page hpage)]

/-- No page lies below another one. -/
theorem eq_of_place (hpage : page ∈ pages) (hother : other ∈ pages) (below : Location)
    (hplace : page.place dir ++ below = other.place dir) : page = other := by
  rw [h.place_eq hpage, h.place_eq hother, List.append_assoc] at hplace
  exact List.inj_on_of_nodup_map h.nodup hpage hother (List.cons.inj (List.append_cancel_left hplace)).1

theorem eq_of_path (hpage : page ∈ pages) (hother : other ∈ pages)
    (hpath : page.path dir = other.path dir) : page = other := by
  have hplace : page.place dir ++ [] = other.place dir := by
    rw [List.append_nil]
    exact congrArg Path.resolve hpath
  exact h.eq_of_place hpage hother [] hplace

theorem mem_map_path_iff (hpage : page ∈ pages) (p : Page → Bool) :
    page.path dir ∈ (pages.filter p).map (Page.path dir) ↔ p page := by
  constructor
  · intro hmem
    obtain ⟨other, hother, hpath⟩ := List.mem_map.mp hmem
    obtain ⟨hother, hp⟩ := List.mem_filter.mp hother
    exact h.eq_of_path hother hpage hpath ▸ hp
  · exact fun hp => List.mem_map_of_mem (List.mem_filter.mpr ⟨hpage, hp⟩)

theorem mem_written_iff (hattempted : Attempted dir start pages w) (hpage : page ∈ pages) :
    page.path dir ∈ w.written ↔ start.Fillable (page.path dir) := by
  rw [hattempted.written_eq, fillable, h.mem_map_path_iff hpage, decide_eq_true_iff]

theorem mem_failures_iff (hattempted : Attempted dir start pages w) (hpage : page ∈ pages) :
    page.path dir ∈ w.failures.map Prod.fst ↔ ¬start.Fillable (page.path dir) := by
  rw [hattempted.failed_eq, h.mem_map_path_iff hpage, decide_eq_true_iff]

end OwnFiles

/-! ## What is changed -/

/-- A written page has its file at a place. -/
def Written.Fills (w : Written) (dir : Path) (pages : List Page) (place : Location) : Prop :=
  ∃ page ∈ pages, page.path dir ∈ w.written ∧ page.place dir = place

/-- A place is as it was, or a directory was made there, where there was nothing, on the way to
another one. -/
def Spares (way : List Component) (before after : FileTree) (place : Location) : Prop :=
  after.find? place = before.find? place ∨
    ComesBy way place ∧ before.find? place = none ∧ after.find? place = some .directory

/-- Where anything has changed, a page was written. -/
theorem fills_of_changed
    (h : (pages.foldl (Written.add dir) w).tree.find? place ≠ w.tree.find? place) :
    (pages.foldl (Written.add dir) w).Fills dir pages place := by
  induction pages using List.reverseRecOn with
  | nil => exact absurd rfl h
  | append_singleton pages newest ih =>
    rw [List.foldl_append, List.foldl_cons, List.foldl_nil] at h ⊢
    cases hresult : (pages.foldl (Written.add dir) w).tree.write (newest.path dir)
        (.text newest.content) with
    | ok grown =>
      obtain ⟨htree, hwritten, -⟩ := Written.add_of_ok hresult
      rw [htree, FileTree.find?_of_write hresult] at h
      rw [Written.Fills, hwritten]
      by_cases hplace : place = (newest.path dir).resolve
      · exact ⟨newest, List.mem_append_right _ (List.mem_singleton_self newest),
          List.mem_append_right _ (List.mem_singleton_self _), hplace.symm⟩
      · obtain ⟨page, hpage, hpath, hat⟩ := ih (by rwa [if_neg hplace] at h)
        exact ⟨page, List.mem_append_left _ hpage, List.mem_append_left _ hpath, hat⟩
    | error e =>
      obtain ⟨htree, hwritten, -⟩ := Written.add_of_error hresult
      rw [htree] at h
      obtain ⟨page, hpage, hpath, hat⟩ := ih h
      rw [Written.Fills, hwritten]
      exact ⟨page, List.mem_append_left _ hpage, hpath, hat⟩

/-- What writing pages comes to, each page for itself. -/
structure Isolates (tree after : FileTree) (dir : Path) (pages : List Page) (w : Written) : Prop where
  partition : (w.written ++ w.failures.map Prod.fst).Perm (pages.map (Page.path dir))
  once : ∀ page ∈ pages, page.path dir ∈ w.written ↔ page.path dir ∉ w.failures.map Prod.fst
  written_order : w.written.Sublist (pages.map (Page.path dir))
  failures_order : (w.failures.map Prod.fst).Sublist (pages.map (Page.path dir))
  holds : ∀ page ∈ pages, page.path dir ∈ w.written →
    after.read (page.path dir) = .ok page.content ∧
      after.find? (page.place dir) = some (.file (.text page.content))
  /-- What is at the path of a failing page stays, and so does all that lies below. -/
  failing : ∀ page ∈ pages, page.path dir ∈ w.failures.map Prod.fst →
    ∀ below, Spares dir.steps tree after (page.place dir ++ below)
  others : ∀ place, ¬w.Fills dir pages place → Spares dir.steps tree after place
  /-- Below a directory that is there, or whose path never goes up, nothing is made on the way. -/
  below : (tree.isDirectory dir ∨ .up ∉ dir.steps) → ∀ below ≠ [],
    ¬w.Fills dir pages (dir.resolve ++ below) →
      after.find? (dir.resolve ++ below) = tree.find? (dir.resolve ++ below)

theorem OwnFiles.not_fills (h : OwnFiles pages) (hattempted : Attempted dir start pages w)
    (hpage : page ∈ pages) (hfails : page.path dir ∈ w.failures.map Prod.fst) (below : Location) :
    ¬w.Fills dir pages (page.place dir ++ below) := by
  rintro ⟨other, hother, hwritten, hplace⟩
  obtain rfl := h.eq_of_place hpage hother below hplace.symm
  exact (h.mem_failures_iff hattempted hpage).mp hfails
    ((h.mem_written_iff hattempted hpage).mp hwritten)

theorem OwnFiles.read_of_written (h : OwnFiles pages) (hattempted : Attempted dir start pages w)
    (hpage : page ∈ pages) (hwritten : page.path dir ∈ w.written) :
    w.tree.read (page.path dir) = .ok page.content := by
  have hfillable : page ∈ fillable start dir pages :=
    List.mem_filter.mpr ⟨hpage, decide_eq_true ((h.mem_written_iff hattempted hpage).mp hwritten)⟩
  obtain ⟨last, hlast, hread⟩ := hattempted.reads page hfillable
  obtain ⟨hmem, hplace⟩ := mem_of_lastAt? hlast
  obtain rfl := h.eq_of_place (List.mem_of_mem_filter hmem) hpage [] (by rwa [List.append_nil])
  exact hread

theorem OwnFiles.isolates (h : OwnFiles pages) (tree : FileTree) (dir : Path) :
    Isolates tree (writtenInto tree dir pages).tree dir pages (writtenInto tree dir pages) := by
  have hattempted := attempted_writtenInto tree dir pages
  have hkept : ∀ place, ¬(writtenInto tree dir pages).Fills dir pages place →
      (writtenInto tree dir pages).tree.find? place = (tree.makeDirectories dir).1.find? place :=
    fun place hplace => by_contra fun hchanged => hplace (fills_of_changed hchanged)
  have hothers : ∀ place, ¬(writtenInto tree dir pages).Fills dir pages place →
      Spares dir.steps tree (writtenInto tree dir pages).tree place := by
    intro place hplace
    rw [Spares, hkept place hplace]
    exact FileTree.madeAlong_makeDirectories tree dir place
  refine ⟨?_, fun page hpage => ?_, ?_, ?_, fun page hpage hwritten => ?_,
    fun page hpage hfails below => hothers _ (h.not_fills hattempted hpage hfails below), hothers,
    fun hdir below hbelow hplace => ?_⟩
  · rw [hattempted.written_eq, hattempted.failed_eq, ← List.map_append, fillable]
    simp only [decide_not]
    exact (List.filter_append_perm _ pages).map _
  · rw [h.mem_written_iff hattempted hpage, h.mem_failures_iff hattempted hpage, not_not]
  · rw [hattempted.written_eq]
    exact List.filter_sublist.map _
  · rw [hattempted.failed_eq]
    exact List.filter_sublist.map _
  · have hread := h.read_of_written hattempted hpage hwritten
    exact ⟨hread, (FileTree.read_eq_ok_iff.mp hread).2⟩
  · rw [hkept _ hplace, FileTree.find?_below_of_makeDirectories hdir hbelow]

/-! ## Without failing pages -/

/-- The tree and the paths that are written depend on the pages that can be written alone. -/
theorem foldl_add_fillable (hstart : ∀ path, w.tree.Fillable path ↔ start.Fillable path)
    (htree : w.tree = w'.tree) (hwritten : w.written = w'.written) :
    (pages.foldl (Written.add dir) w).tree =
        ((fillable start dir pages).foldl (Written.add dir) w').tree ∧
      (pages.foldl (Written.add dir) w).written =
        ((fillable start dir pages).foldl (Written.add dir) w').written := by
  induction pages generalizing w w' with
  | nil => exact ⟨htree, hwritten⟩
  | cons page pages ih =>
    rw [List.foldl_cons]
    cases hresult : w.tree.write (page.path dir) (.text page.content) with
    | ok grown =>
      have hf := (hstart _).mp (FileTree.fillable_of_write hresult)
      obtain ⟨hgrown, hadded, -⟩ := Written.add_of_ok hresult
      obtain ⟨hgrown', hadded', -⟩ := Written.add_of_ok (htree ▸ hresult)
      have hcons : fillable start dir (page :: pages) = page :: fillable start dir pages :=
        List.filter_cons_of_pos (decide_eq_true hf)
      rw [hcons, List.foldl_cons]
      refine ih (fun path => ?_) (hgrown.trans hgrown'.symm) (by rw [hadded, hadded', hwritten])
      rw [← hstart path, hgrown]
      exact fillable_iff_of_write hresult path
    | error e =>
      have hf : ¬start.Fillable (page.path dir) := fun hf =>
        FileTree.not_fillable_of_write hresult ((hstart _).mpr hf)
      obtain ⟨hsame, hadded, -⟩ := Written.add_of_error hresult
      have hcons : fillable start dir (page :: pages) = fillable start dir pages :=
        List.filter_cons_of_neg (by rwa [decide_eq_true_eq])
      rw [hcons]
      exact ih (by rwa [hsame]) (hsame.trans htree) (hadded.trans hwritten)

theorem writtenInto_fillable (tree : FileTree) (dir : Path) (pages : List Page) :
    (writtenInto tree dir pages).tree =
        (writtenInto tree dir (fillable (tree.makeDirectories dir).1 dir pages)).tree ∧
      (writtenInto tree dir pages).written =
        (writtenInto tree dir (fillable (tree.makeDirectories dir).1 dir pages)).written :=
  foldl_add_fillable (fun _ => Iff.rfl) rfl rfl

/-- Pages that are left out and that are not taken make no difference to those that are. -/
theorem filter_eq_of_sublist {p : Page → Bool} (hsub : fewer.Sublist pages) (hnodup : pages.Nodup)
    (h : ∀ page ∈ pages, page ∉ fewer → ¬p page) : fewer.filter p = pages.filter p := by
  refine (hsub.filter p).eq_of_length_le (List.Nodup.subperm (hnodup.filter p) ?_).length_le
  intro page hpage
  obtain ⟨hpage, hp⟩ := List.mem_filter.mp hpage
  exact List.mem_filter.mpr ⟨by_contra fun hnot => h page hpage hnot hp, hp⟩

theorem OwnFiles.writtenInto_fewer (h : OwnFiles pages) (hsub : fewer.Sublist pages)
    (hfails : ∀ page ∈ pages, page ∉ fewer →
      page.path dir ∈ (writtenInto tree dir pages).failures.map Prod.fst) :
    (writtenInto tree dir fewer).tree = (writtenInto tree dir pages).tree ∧
      (writtenInto tree dir fewer).written = (writtenInto tree dir pages).written := by
  have hattempted := attempted_writtenInto tree dir pages
  have hsame : fillable (tree.makeDirectories dir).1 dir fewer =
      fillable (tree.makeDirectories dir).1 dir pages := by
    refine filter_eq_of_sublist hsub h.nodup.of_map fun page hpage hnot => ?_
    rw [decide_eq_true_eq]
    exact (h.mem_failures_iff hattempted hpage).mp (hfails page hpage hnot)
  obtain ⟨htree, hwritten⟩ := writtenInto_fillable tree dir pages
  obtain ⟨htree', hwritten'⟩ := writtenInto_fillable tree dir fewer
  rw [hsame] at htree' hwritten'
  exact ⟨htree'.trans htree.symm, hwritten'.trans hwritten.symm⟩

/-! ## Writing pages -/

/-- Into a directory that is there or can be made, pages with file names of their own are written each
for itself. Without some of those that fail, the same pages are written and the tree comes out the
same. -/
theorem writePages_isolates {tree : FileTree} {dir : Path} {pages : List Page}
    (hdir : tree.isDirectory dir ∨ (tree.makeDirectories dir).2 = none) (hpages : OwnFiles pages) :
    ∃ after w, writePages tree dir pages = (after, .ok w) ∧ Isolates tree after dir pages w ∧
      ∀ fewer, fewer.Sublist pages →
        (∀ page ∈ pages, page ∉ fewer → page.path dir ∈ w.failures.map Prod.fst) →
          ∃ w', writePages tree dir fewer = (after, .ok w') ∧ w'.written = w.written := by
  have hmade : (tree.makeDirectories dir).2 = none := by
    rcases hdir with hd | hmade
    · rw [FileTree.makeDirectories_of_isDirectory hd]
    · exact hmade
  refine ⟨_, _, writePages_eq_ok_iff.mpr ⟨hmade, rfl, rfl⟩, hpages.isolates tree dir, ?_⟩
  intro fewer hsub hfails
  obtain ⟨htree, hwritten⟩ := hpages.writtenInto_fewer hsub hfails
  exact ⟨_, writePages_eq_ok_iff.mpr ⟨hmade, rfl, htree.symm⟩, hwritten⟩

/-- A directory in which the place of one page is taken by another directory. -/
def takenTree : FileTree := (FileTree.save ∅ "o/A.md/x".toList "kept".toList).1

def namedPages : List Page := [⟨"A.md".toList, "a".toList⟩, ⟨"B.md".toList, "b".toList⟩,
  ⟨List.replicate 256 'c', "c".toList⟩, ⟨"functions.md".toList, "f".toList⟩]

theorem writePages_isolates_takenTree : (takenTree.isDirectory "o".toList ∧ OwnFiles namedPages) ∧
    ∃ after w, writePages takenTree "o".toList namedPages = (after, .ok w) ∧
      w.written = ["o/B.md".toList, "o/functions.md".toList] ∧ w.failures.length = 2 ∧
      Isolates takenTree after "o".toList namedPages w := by
  have hd : takenTree.isDirectory "o".toList := by decide +kernel
  have hpages : OwnFiles namedPages :=
    ⟨by decide +kernel, by decide +kernel, by decide +kernel, by decide +kernel, by decide +kernel⟩
  obtain ⟨after, w, hwritten, hisolates, -⟩ := writePages_isolates (.inl hd) hpages
  obtain ⟨-, hw, -⟩ := writePages_eq_ok_iff.mp hwritten
  refine ⟨⟨hd, hpages⟩, after, w, hwritten, ?_, ?_, hisolates⟩
  · rw [hw]
    decide +kernel
  · rw [hw]
    decide +kernel

def onePage : List Page := [⟨"A.md".toList, "a".toList⟩]

/-- A path that goes up again makes a directory below the one that it leads to. -/
theorem writePages_makes_passedDirectory :
    (FileTree.makeDirectories ∅ "out/sub/..".toList).2 = none ∧ OwnFiles onePage ∧
    ∃ after w, writePages ∅ "out/sub/..".toList onePage = (after, .ok w) ∧
      Path.resolve "out/sub/..".toList = ["out".toList] ∧
      onePage.map (Page.place "out/sub/..".toList) = [["out".toList, "A.md".toList]] ∧
      FileTree.find? ∅ ["out".toList, "sub".toList] = none ∧
      after.find? ["out".toList, "sub".toList] = some .directory := by
  have hmade : (FileTree.makeDirectories ∅ "out/sub/..".toList).2 = none := by decide +kernel
  have hpages : OwnFiles onePage :=
    ⟨by decide +kernel, by decide +kernel, by decide +kernel, by decide +kernel, by decide +kernel⟩
  exact ⟨hmade, hpages, _, _, writePages_eq_ok_iff.mpr ⟨hmade, rfl, rfl⟩, by decide +kernel,
    by decide +kernel, by decide +kernel, by decide +kernel⟩

end DocTools.Reference
