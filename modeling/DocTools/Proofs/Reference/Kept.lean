import DocTools.Proofs.FileTree.Reading
import DocTools.Proofs.Reference.FileNames
import DocTools.Reference.Output
import Mathlib.Data.List.Induction

/-! # Which pages are kept

Pages are written one after another into one directory, so of those that lead to one place the last
stays. The main statements: `read_foldl_add`, which says what is read at the path of a page when all
pages were written, and `writePages_keeps_iff`, which says for the pages of merged fragments when
none of them was overwritten. -/
namespace DocTools.Reference
set_option autoImplicit false

/-! ## The last page at a place -/

/-- The last page that leads to a place. -/
def lastAt? (dir : Path) (pages : List Page) (place : Location) : Option Page :=
  pages.reverse.find? (·.place dir = place)

section
variable {dir : Path} {pages : List Page} {page other : Page} {place : Location}

theorem lastAt?_concat : lastAt? dir (pages ++ [page]) place =
    if page.place dir = place then some page else lastAt? dir pages place := by
  rw [lastAt?, List.reverse_concat]
  by_cases h : page.place dir = place
  · rw [if_pos h, List.find?_cons_of_pos (by simpa using h)]
  · rw [if_neg h, List.find?_cons_of_neg (by simpa using h)]
    rfl

theorem mem_of_lastAt? (h : lastAt? dir pages place = some other) :
    other ∈ pages ∧ other.place dir = place :=
  ⟨List.mem_reverse.mp (List.mem_of_find?_eq_some h), by simpa using List.find?_some h⟩

end

/-! ## Writing -/

theorem write_of_add {dir : Path} {w : Written} {page : Page} (h : (w.add dir page).failures = []) :
    w.failures = [] ∧
      w.tree.write (page.path dir) (.text page.content) = .ok (w.add dir page).tree := by
  unfold Written.add at h ⊢
  simp only at h ⊢
  split at h
  · rename_i tree htree
    exact ⟨h, htree⟩
  · cases List.append_eq_nil_iff.mp h |>.2

/-- What is read at the path of a page is the last of the pages that lead there. -/
theorem read_foldl_add {dir : Path} {w : Written} {pages : List Page}
    (h : (pages.foldl (Written.add dir) w).failures = []) {page : Page} (hpage : page ∈ pages) :
    ∃ last, lastAt? dir pages (page.place dir) = some last ∧
      (pages.foldl (Written.add dir) w).tree.read (page.path dir) = .ok last.content := by
  -- from the end, as the page written last decides about its place and no other
  induction pages using List.reverseRecOn with
  | nil => cases hpage
  | append_singleton pages newest ih =>
    rw [List.foldl_append, List.foldl_cons, List.foldl_nil] at h ⊢
    obtain ⟨hbefore, hwrite⟩ := write_of_add h
    rw [lastAt?_concat]
    rcases List.mem_append.mp hpage with hold | hnew
    · obtain ⟨last, hlast, hread⟩ := ih hbefore hold
      have hafter := FileTree.read_after_write hwrite hread
      by_cases hsame : page.place dir = newest.place dir
      · rw [if_pos hsame.symm]
        exact ⟨newest, rfl, hafter.trans (congrArg _ (if_pos hsame))⟩
      · rw [if_neg (Ne.symm hsame)]
        exact ⟨last, hlast, hafter.trans (congrArg _ (if_neg hsame))⟩
    · obtain rfl := List.mem_singleton.mp hnew
      rw [if_pos rfl]
      exact ⟨page, rfl, FileTree.read_of_write hwrite⟩

theorem keeps_foldl_add_iff {dir : Path} {w : Written} {pages : List Page}
    (h : (pages.foldl (Written.add dir) w).failures = []) :
    (∀ page ∈ pages,
        (pages.foldl (Written.add dir) w).tree.read (page.path dir) = .ok page.content) ↔
      ∀ page ∈ pages, ∀ other ∈ pages, page.place dir = other.place dir →
        page.content = other.content := by
  constructor
  · intro hkept page hpage other hother hplace
    obtain ⟨last, hlast, hread⟩ := read_foldl_add h hpage
    obtain ⟨last', hlast', hread'⟩ := read_foldl_add h hother
    obtain rfl : last = last' := Option.some.inj (hlast.symm.trans (hplace ▸ hlast'))
    rw [hkept page hpage] at hread
    rw [hkept other hother] at hread'
    exact Except.ok.inj (hread.trans hread'.symm)
  · intro hsame page hpage
    obtain ⟨last, hlast, hread⟩ := read_foldl_add h hpage
    obtain ⟨hmem, hplace⟩ := mem_of_lastAt? hlast
    rw [hread, hsame last hmem page hpage hplace]

/-- What becomes of pages once their directory is made. -/
def writtenInto (tree : FileTree) (dir : Path) (pages : List Page) : Written :=
  pages.foldl (Written.add dir) ⟨(tree.makeDirectories dir).1, [], [], [], []⟩

theorem writePages_eq_ok_iff {tree after : FileTree} {dir : Path} {pages : List Page} {w : Written} :
    writePages tree dir pages = (after, .ok w) ↔
      (tree.makeDirectories dir).2 = none ∧ w = writtenInto tree dir pages ∧ after = w.tree := by
  unfold writePages writtenInto
  split
  · rename_i grown e hmade
    rw [hmade]
    constructor
    · intro h
      cases h
    · rintro ⟨h, -⟩
      cases h
  · rename_i grown hmade
    rw [hmade]
    constructor
    · intro h
      cases h
      exact ⟨rfl, rfl, rfl⟩
    · rintro ⟨-, rfl, rfl⟩
      rfl

/-! ## Pages of merged fragments -/

/-- The pages that a generator makes of fragments. -/
def Generator.pagesOf (g : Generator) (fragments : List Namespace) : List Page :=
  g.pages (Model.merge Dictionary.empty fragments)

theorem Generator.eq_of_place {g : Generator} {fragments : List Namespace}
    (h : PlainNames (classesFor g.target fragments)) {dir : Path} {page other : Page}
    (hpage : page ∈ g.pagesOf fragments) (hother : other ∈ g.pagesOf fragments)
    (hplace : page.place dir = other.place dir) : page = other := by
  have hclasses := Model.classes_merge Dictionary.empty fragments g.target
  unfold Generator.pagesOf Generator.pages at hpage hother
  unfold Model.classes at hclasses
  cases hn : Dictionary.get? (Model.merge Dictionary.empty fragments) g.target with
  | none =>
    rw [hn] at hpage
    cases hpage
  | some n =>
    rw [hn] at hpage hother hclasses
    have hsame : n.classes = classesFor g.target fragments := hclasses
    exact PlainNames.eq_of_place (hsame ▸ h) hpage hother hplace

/-- When all pages of merged fragments were written, each file holds its page exactly if pages that
lead to one place are alike. For classes with plain names they do not meet at all. -/
theorem writePages_keeps_iff {tree after : FileTree} {dir : Path} {g : Generator}
    {fragments : List Namespace} {w : Written}
    (h : writePages tree dir (g.pagesOf fragments) = (after, .ok w)) (hw : w.failures = []) :
    ((∀ page ∈ g.pagesOf fragments, after.read (page.path dir) = .ok page.content) ↔
      ∀ page ∈ g.pagesOf fragments, ∀ other ∈ g.pagesOf fragments,
        page.place dir = other.place dir → page.content = other.content) ∧
    (PlainNames (classesFor g.target fragments) →
      ∀ page ∈ g.pagesOf fragments, after.read (page.path dir) = .ok page.content) := by
  obtain ⟨-, rfl, rfl⟩ := writePages_eq_ok_iff.mp h
  have hkeeps := keeps_foldl_add_iff hw
  refine ⟨hkeeps, fun hnames => hkeeps.mpr fun page hpage other hother hplace => ?_⟩
  rw [Generator.eq_of_place hnames hpage hother hplace]

/-! ## Two samples -/

/-- A fragment of the standard namespace with classes that have a name and a brief. -/
def fragmentOf (classes : List (Text × Text)) (functions : List Function) : Namespace :=
  { Namespace.named standardTarget with
    classes := classes.map fun c => ⟨c.1, c.2, [], [], [], [], [], false, []⟩
    functions := functions }

def plainFragments : List Namespace :=
  [fragmentOf [("Step".toList, "x".toList), ("step".toList, [])] [],
    Namespace.named "other".toList,
    fragmentOf [("Label<T>".toList, "y".toList)]
      [⟨"label".toList, [], [], voidType, [], [], false, false, false, [], .publicAccess, []⟩]]

def withIndex : Generator := ⟨standardTarget, true⟩

theorem writePages_keeps_iff_plainFragments :
    ∃ after w, writePages ∅ "docs/api".toList (withIndex.pagesOf plainFragments) = (after, .ok w) ∧
      w.failures = [] ∧ PlainNames (classesFor withIndex.target plainFragments) ∧
      ∀ page ∈ withIndex.pagesOf plainFragments,
        after.read (page.path "docs/api".toList) = .ok page.content := by
  let w := writtenInto ∅ "docs/api".toList (withIndex.pagesOf plainFragments)
  have hmade : (FileTree.makeDirectories ∅ "docs/api".toList).2 = none := by decide +kernel
  have hwritten : writePages ∅ "docs/api".toList (withIndex.pagesOf plainFragments) = (w.tree, .ok w) :=
    writePages_eq_ok_iff.mpr ⟨hmade, rfl, rfl⟩
  have hfailures : w.failures = [] := by decide +kernel
  have hnames : PlainNames (classesFor withIndex.target plainFragments) :=
    ⟨by decide +kernel, by decide +kernel, by decide +kernel, by decide +kernel⟩
  exact ⟨w.tree, w, hwritten, hfailures, hnames, (writePages_keeps_iff hwritten hfailures).2 hnames⟩

/-- Two files of one class name, and a class that is named like the page of the functions. -/
def clashingFragments : List Namespace :=
  [fragmentOf [("Step".toList, "first".toList), ("functions".toList, "third".toList)] [],
    fragmentOf [("Step".toList, "second".toList)]
      [⟨"label".toList, [], [], voidType, [], [], false, false, false, [], .publicAccess, []⟩]]

/-- Pages are lost without a failure: of four that are told of as written, the last two stand in the
files of the first two. -/
theorem writePages_loses_clashingFragments :
    ∃ after w, writePages ∅ "out".toList (Generator.standard.pagesOf clashingFragments) = (after, .ok w) ∧
      w.failures = [] ∧ w.written.length = 4 ∧
      (¬ ∀ page ∈ Generator.standard.pagesOf clashingFragments,
        after.read (page.path "out".toList) = .ok page.content) ∧
      ∃ first second third fourth,
        Generator.standard.pagesOf clashingFragments = [first, second, third, fourth] ∧
        after.read (first.path "out".toList) = .ok third.content ∧
        after.read (second.path "out".toList) = .ok fourth.content := by
  have hmade : (FileTree.makeDirectories ∅ "out".toList).2 = none := by decide +kernel
  refine ⟨_, _, writePages_eq_ok_iff.mpr ⟨hmade, rfl, rfl⟩, by decide +kernel, by decide +kernel,
    by decide +kernel, _, _, _, _, rfl, by decide +kernel, by decide +kernel⟩

end DocTools.Reference
