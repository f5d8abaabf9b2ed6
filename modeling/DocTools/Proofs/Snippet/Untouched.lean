import DocTools.Proofs.Snippet.Beside
import DocTools.Proofs.Snippet.Placed

/-! # A run between directories that are apart

A run over the templates of a directory writes to a tree while it goes on reading from it. When the
directory of the pages is apart from that of the templates, what comes of a template is nevertheless
settled by the tree that the run found. The main statement, `leaves_injectDirectory`, describes a whole
run in these terms: its pages, its errors, and what else is in the tree afterwards. -/
namespace DocTools.Snippet
set_option autoImplicit false

def InjectError.file? : InjectError → Option Path
  | .missing .. => none
  | .file path _ => some path

namespace Injector

open FilePattern (Listed Lists SameBelow IsPlain withExtension)
open DocTools.Path (resolve)

/-! ## One template -/

section
variable {inputDir outputDir input : Path} {run : Run}

theorem Run.add_of_read_error {e : IoError} (h : run.tree.read input = .error e) :
    Run.add inputDir outputDir run input =
      ⟨run.tree, { run.injector with
        errors := run.injector.errors ++ [.file input (.reading input e)] }, run.written⟩ := by
  unfold Run.add injectFile
  rw [h]

theorem Run.add_of_save_error {text : Text} {after : FileTree} {failure : Failure}
    (h : run.tree.read input = .ok text)
    (hsave : run.tree.save (outputPath inputDir outputDir input)
      (run.injector.injectText input text).2.output = (after, some failure)) :
    Run.add inputDir outputDir run input =
      ⟨after, { (run.injector.injectText input text).1 with
        errors := (run.injector.injectText input text).1.errors ++ [.file input failure] },
        run.written⟩ := by
  unfold Run.add injectFile
  rw [h]
  dsimp only
  rw [hsave]

theorem Run.add_of_save {text : Text} {after : FileTree} (h : run.tree.read input = .ok text)
    (hsave : run.tree.save (outputPath inputDir outputDir input)
      (run.injector.injectText input text).2.output = (after, none)) :
    Run.add inputDir outputDir run input =
      ⟨after, { (run.injector.injectText input text).1 with
        events := (run.injector.injectText input text).1.events ++
          [processedEvent input (run.injector.injectText input text).2.injected] },
        run.written ++ [⟨input, outputPath inputDir outputDir input,
          (run.injector.injectText input text).2.injected⟩]⟩ := by
  unfold Run.add injectFile
  rw [h]
  dsimp only
  rw [hsave]

end

/-! ## What a template comes to -/

/-- The page that a run over one template alone writes. -/
def pageAlone (tree : FileTree) (x : Injector) (inputDir outputDir input : Path) : Option WrittenPage :=
  (Run.add inputDir outputDir ⟨tree, x, []⟩ input).written.head?

/-- A page in a tree, made from the text that its template had in an earlier one. -/
structure MadeFrom (tree : FileTree) (x : Injector) (inputDir outputDir : Path) (after : FileTree)
    (page : WrittenPage) (below : Location) (text : Text) : Prop where
  listed : Listed tree inputDir below page.input
  output_eq : page.output = outputDir.join (FileTree.pathOf below)
  template : tree.read page.input = .ok text
  injected_eq : page.injected = (x.injectText page.input text).2.injected
  written : after.read page.output = .ok (x.injectText page.input text).2.output

/-- A run has come past some templates, each with its page or with one error. -/
structure Processed (tree : FileTree) (x : Injector) (inputDir outputDir : Path) (done : List Path)
    (run : Run) : Prop where
  beside : Beside tree inputDir outputDir run.tree
  snippets_eq : run.injector.snippets = x.snippets
  written_eq : run.written = done.filterMap (pageAlone tree x inputDir outputDir)
  errors : ∃ noted, run.injector.errors = x.errors ++ noted ∧ noted.filterMap InjectError.file? =
    done.filter fun input => (pageAlone tree x inputDir outputDir input).isNone
  pages : ∀ page ∈ run.written, ∃ below text,
    MadeFrom tree x inputDir outputDir run.tree page below text

section
variable {tree : FileTree} {x : Injector} {inputDir outputDir input : Path} {below : Location}
  {done : List Path} {run : Run}

theorem pageAlone_of_read_error {e : IoError} (h : tree.read input = .error e) :
    pageAlone tree x inputDir outputDir input = none := by
  rw [pageAlone, Run.add_of_read_error h]
  rfl

theorem pageAlone_of_save_error {text : Text} (h : tree.read input = .ok text)
    (hsave : (tree.save (outputPath inputDir outputDir input)
      (x.injectText input text).2.output).2 ≠ none) :
    pageAlone tree x inputDir outputDir input = none := by
  obtain ⟨failure, hfailure⟩ := Option.ne_none_iff_exists'.mp hsave
  have hadd := @Run.add_of_save_error inputDir outputDir input ⟨tree, x, []⟩ text _ failure h
    (Prod.ext rfl hfailure)
  rw [pageAlone, hadd]
  rfl

theorem pageAlone_of_save {text : Text} (h : tree.read input = .ok text)
    (hsave : (tree.save (outputPath inputDir outputDir input)
      (x.injectText input text).2.output).2 = none) :
    pageAlone tree x inputDir outputDir input = some ⟨input, outputPath inputDir outputDir input,
      (x.injectText input text).2.injected⟩ := by
  have hadd := @Run.add_of_save inputDir outputDir input ⟨tree, x, []⟩ text _ h (Prod.ext rfl hsave)
  rw [pageAlone, hadd]
  rfl

theorem input_of_pageAlone {page : WrittenPage}
    (h : pageAlone tree x inputDir outputDir input = some page) : page.input = input := by
  cases hread : tree.read input with
  | error e =>
    rw [pageAlone_of_read_error hread] at h
    cases h
  | ok text =>
    by_cases hsave : (tree.save (outputPath inputDir outputDir input)
        (x.injectText input text).2.output).2 = none
    · rw [pageAlone_of_save hread hsave] at h
      cases h
      rfl
    · rw [pageAlone_of_save_error hread hsave] at h
      cases h

theorem filterMap_file?_missing (input : Path) (missing : List (Nat × Text)) :
    (missing.map fun m => InjectError.missing input m.1 m.2).filterMap InjectError.file? = [] := by
  rw [List.filterMap_eq_nil_iff]
  intro e he
  obtain ⟨m, -, rfl⟩ := List.mem_map.mp he
  rfl

theorem filterMap_file?_append_file (input : Path) (missing : List (Nat × Text)) (failure : Failure) :
    (missing.map (fun m => InjectError.missing input m.1 m.2) ++
      [InjectError.file input failure]).filterMap InjectError.file? = [input] := by
  rw [List.filterMap_append, filterMap_file?_missing]
  rfl

theorem injectText_congr {y : Injector} (h : y.snippets = x.snippets) (input : Path) (text : Text) :
    (y.injectText input text).2 = (x.injectText input text).2 := by
  rw [injectText, injectText, h]

theorem MadeFrom.save_other {after : FileTree} {page : WrittenPage} {more : Location} {old : Text}
    (h : MadeFrom tree x inputDir outputDir after page more old) (happart : Apart inputDir outputDir)
    (hinput : Listed tree inputDir below input) (hne : more ≠ below) (text : Text) :
    MadeFrom tree x inputDir outputDir (after.save (outputPath inputDir outputDir input) text).1
      page more old := by
  obtain ⟨houtput, hpage⟩ := targets_outputPath happart h.listed
  rw [houtput, ← h.output_eq] at hpage
  exact { h with
    written := read_of_save_other h.written hpage (targets_outputPath happart hinput).2 hinput.ne_nil
      hne text }

/-- A template that has not been come past has another location than those of the pages. -/
theorem Processed.pages_save (h : Processed tree x inputDir outputDir done run)
    (happart : Apart inputDir outputDir) (hinput : Listed tree inputDir below input)
    (hfresh : resolve input ∉ done.map resolve) (text : Text) : ∀ page ∈ run.written, ∃ more old,
      MadeFrom tree x inputDir outputDir
        (run.tree.save (outputPath inputDir outputDir input) text).1 page more old := by
  intro page hpage
  obtain ⟨more, old, hmade⟩ := h.pages page hpage
  refine ⟨more, old, hmade.save_other happart hinput ?_ text⟩
  rintro rfl
  rw [h.written_eq] at hpage
  obtain ⟨other, hother, hsome⟩ := List.mem_filterMap.mp hpage
  apply hfresh
  have hsame : page.input = other := input_of_pageAlone hsome
  rw [hinput.points.resolve_eq, ← hmade.listed.points.resolve_eq, hsame]
  exact List.mem_map_of_mem hother

theorem Processed.errors_append (h : Processed tree x inputDir outputDir done run)
    {entries : List InjectError} (hentries : entries.filterMap InjectError.file? =
      [input].filter fun i => (pageAlone tree x inputDir outputDir i).isNone) :
    ∃ noted, run.injector.errors ++ entries = x.errors ++ noted ∧ noted.filterMap InjectError.file? =
      (done ++ [input]).filter fun i => (pageAlone tree x inputDir outputDir i).isNone := by
  obtain ⟨noted, herrors, hnoted⟩ := h.errors
  refine ⟨noted ++ entries, ?_, ?_⟩
  · rw [herrors, List.append_assoc]
  · rw [List.filterMap_append, List.filter_append, hnoted, hentries]

section
variable {after : FileTree} {y : Injector} {entries : List InjectError}
  (h : Processed tree x inputDir outputDir done run) (hafter : Beside tree inputDir outputDir after)
  (hpages : ∀ page ∈ run.written, ∃ more old, MadeFrom tree x inputDir outputDir after page more old)
  (hy : y.snippets = x.snippets) (herrors : y.errors = run.injector.errors ++ entries)
include h hafter hpages hy herrors

/-- One more template, which has no page and one error. -/
theorem Processed.without_page (hnone : pageAlone tree x inputDir outputDir input = none)
    (hentries : entries.filterMap InjectError.file? = [input]) :
    Processed tree x inputDir outputDir (done ++ [input]) ⟨after, y, run.written⟩ where
  beside := hafter
  snippets_eq := hy
  written_eq := by
    rw [List.filterMap_append, List.filterMap_cons_none hnone, List.filterMap_nil, List.append_nil]
    exact h.written_eq
  errors := by
    rw [herrors]
    exact h.errors_append (by rw [hentries, List.filter_singleton, hnone]; rfl)
  pages := hpages

/-- One more template, which has a page and no error but for missing snippets. -/
theorem Processed.with_page {page : WrittenPage} {text : Text}
    (hpage : pageAlone tree x inputDir outputDir input = some page)
    (hmade : MadeFrom tree x inputDir outputDir after page below text)
    (hentries : entries.filterMap InjectError.file? = []) :
    Processed tree x inputDir outputDir (done ++ [input]) ⟨after, y, run.written ++ [page]⟩ where
  beside := hafter
  snippets_eq := hy
  written_eq := by
    rw [List.filterMap_append, List.filterMap_cons_some hpage, List.filterMap_nil, h.written_eq]
  errors := by
    rw [herrors]
    exact h.errors_append (by rw [hentries, List.filter_singleton, hpage]; rfl)
  pages := by
    intro other hother
    rcases List.mem_append.mp hother with hold | hnew
    · exact hpages other hold
    · obtain rfl := List.mem_singleton.mp hnew
      exact ⟨below, text, hmade⟩

end

/-! ## A run over templates -/

theorem Processed.add (h : Processed tree x inputDir outputDir done run)
    (happart : Apart inputDir outputDir) (hinput : Listed tree inputDir below input)
    (hfresh : resolve input ∉ done.map resolve) :
    Processed tree x inputDir outputDir (done ++ [input]) (Run.add inputDir outputDir run input) := by
  have hread := h.beside.read_eq_ok_iff happart hinput
  cases htree : tree.read input with
  | error e =>
    cases hrun : run.tree.read input with
    | ok text =>
      rw [(hread text).mp hrun] at htree
      cases htree
    | error e' =>
      rw [Run.add_of_read_error hrun]
      exact h.without_page h.beside h.pages h.snippets_eq rfl (pageAlone_of_read_error htree) rfl
  | ok text =>
    have hrun := (hread text).mpr htree
    obtain ⟨houtput, htargets⟩ := targets_outputPath happart hinput
    have htext := injectText_congr h.snippets_eq input text
    -- saved now exactly if it would have been saved at first
    have hsave := h.beside.save_iff hinput.stands hinput.ne_nil htargets (x.injectText input text).2.output
    have hafter := h.beside.save hinput.stands hinput.ne_nil htargets (x.injectText input text).2.output
    have hpages := h.pages_save happart hinput hfresh (x.injectText input text).2.output
    cases hsaved : run.tree.save (outputPath inputDir outputDir input)
        (x.injectText input text).2.output with
    | mk after failure =>
      rw [hsaved] at hsave hafter hpages
      cases failure with
      | some failure =>
        have hnone := pageAlone_of_save_error htree fun hc => nomatch hsave.mpr hc
        have hentries := filterMap_file?_append_file input (x.injectText input text).2.missing failure
        rw [Run.add_of_save_error hrun (htext ▸ hsaved)]
        refine h.without_page hafter hpages ?_ ?_ hnone hentries
        · exact h.snippets_eq
        · rw [← htext, ← List.append_assoc]
          rfl
      | none =>
        have hpage := pageAlone_of_save htree (hsave.mp rfl)
        have hentries := filterMap_file?_missing input (x.injectText input text).2.missing
        rw [Run.add_of_save hrun (htext ▸ hsaved), htext]
        refine h.with_page hafter hpages ?_ ?_ hpage
          ⟨hinput, houtput, htree, rfl, FileTree.read_of_save hsaved⟩ hentries
        · exact h.snippets_eq
        · rw [← htext]
          rfl

theorem Processed.foldl_add {inputs : List Path} (h : Processed tree x inputDir outputDir done run)
    (happart : Apart inputDir outputDir)
    (hinputs : ∀ input ∈ inputs, ∃ below, Listed tree inputDir below input)
    (honce : ((done ++ inputs).map resolve).Nodup) :
    Processed tree x inputDir outputDir (done ++ inputs)
      (inputs.foldl (Run.add inputDir outputDir) run) := by
  induction inputs generalizing done run with
  | nil =>
    rw [List.append_nil]
    exact h
  | cons input inputs ih =>
    rw [← List.singleton_append, ← List.append_assoc] at honce ⊢
    obtain ⟨below, hinput⟩ := hinputs input List.mem_cons_self
    have hfresh : resolve input ∉ done.map resolve := by
      have hfront := honce.sublist ((List.sublist_append_left _ inputs).map resolve)
      rw [List.map_append, List.map_singleton] at hfront
      exact fun hc => (List.nodup_append.mp hfront).2.2 _ hc _ (List.mem_singleton_self _) rfl
    exact ih (h.add happart hinput hfresh) (fun i hi => hinputs i (List.mem_cons_of_mem _ hi)) honce

theorem Processed.addMatching (h : Processed tree x inputDir outputDir done run)
    (happart : Apart inputDir outputDir) {extension : Text} (hplain : IsPlain extension)
    (honce : ∀ inputs, Lists tree inputDir extension inputs → ((done ++ inputs).map resolve).Nodup) :
    ∃ inputs next, Run.addMatching inputDir outputDir run (withExtension extension) = .ok next ∧
      Lists tree inputDir extension inputs ∧
      Processed tree x inputDir outputDir (done ++ inputs) next := by
  have hlists : Lists tree inputDir extension
      (FilePattern.files run.tree ⟨FilePattern.segmentsBelow inputDir extension, false⟩) :=
    (FilePattern.lists_files run.tree happart.input_direct happart.input_ne_nil extension).of_sameBelow
      (h.beside.sameBelow happart)
  refine ⟨_, _, ?_, hlists, h.foldl_add happart hlists.listed (honce _ hlists)⟩
  rw [Run.addMatching, glob_withExtension run.tree inputDir hplain]
  rfl

/-! ## All templates -/

/-- A location outside the directory of the pages is as it was, or it is a directory on the way there
that was missing. -/
theorem Beside.find?_eq_or {after : FileTree} (h : Beside tree inputDir outputDir after)
    (place : Location) : after.find? place = tree.find? place ∨
      ∃ goal, outputDir.place? = some goal ∧ (goal <+: place ∨
        place <+: goal ∧ tree.find? place = none ∧ after.find? place = some .directory) := by
  refine (h.changed place).imp_right fun hadded => ?_
  cases hadded with
  | page hgoal _ hplace _ => exact ⟨_, hgoal, .inl (hplace ▸ List.prefix_append _ _)⟩
  | directory hgoal _ hway _ hnone hd =>
    have hcases := List.prefix_or_prefix_of_prefix (List.prefix_append _ _) hway
    exact ⟨_, hgoal, hcases.imp_right fun hc => ⟨hc, hnone, hd⟩⟩

/-- A template has a page exactly if it is a text and nothing is in the way of the page. -/
theorem isSome_pageAlone_iff (happart : Apart inputDir outputDir)
    (hinput : Listed tree inputDir below input) :
    (pageAlone tree x inputDir outputDir input).isSome ↔ (∃ text, tree.read input = .ok text) ∧
      ∃ goal, outputDir.place? = some goal ∧
        tree.Clear (outputDir.join (FileTree.pathOf below)) (goal ++ below) := by
  obtain ⟨houtput, htargets⟩ := targets_outputPath happart hinput
  cases hread : tree.read input with
  | error e =>
    rw [pageAlone_of_read_error hread]
    exact ⟨fun hc => (nomatch hc), fun ⟨⟨_, hc⟩, _⟩ => nomatch hc⟩
  | ok text =>
    have hclear := htargets.save_eq_none_iff tree hinput.ne_nil (x.injectText input text).2.output
    rw [← houtput, ← hclear]
    by_cases hsave : (tree.save (outputPath inputDir outputDir input)
        (x.injectText input text).2.output).2 = none
    · rw [pageAlone_of_save hread hsave]
      exact ⟨fun _ => ⟨⟨text, rfl⟩, hsave⟩, fun _ => rfl⟩
    · rw [pageAlone_of_save_error hread hsave]
      exact ⟨fun hc => (nomatch hc), fun hc => absurd hc.2 hsave⟩

end

/-- What a run leaves, told by the tree that it found: one page or one error for every template, in
the order of the templates, and no other change. -/
structure Leaves (tree : FileTree) (x : Injector) (inputDir outputDir : Path) (mds mdxs : List Path)
    (run : Run) : Prop extends Processed tree x inputDir outputDir (mds ++ mdxs) run where
  md_listed : Lists tree inputDir "md".toList mds
  mdx_listed : Lists tree inputDir "mdx".toList mdxs
  once : ((mds ++ mdxs).map resolve).Nodup
  succeeds_iff : ∀ input ∈ mds ++ mdxs, ∃ below, Listed tree inputDir below input ∧
    ((pageAlone tree x inputDir outputDir input).isSome ↔ (∃ text, tree.read input = .ok text) ∧
      ∃ goal, outputDir.place? = some goal ∧
        tree.Clear (outputDir.join (FileTree.pathOf below)) (goal ++ below))
  templates : SameBelow inputDir tree run.tree
  elsewhere : ∀ place, run.tree.find? place = tree.find? place ∨
    ∃ goal, outputDir.place? = some goal ∧ (goal <+: place ∨
      place <+: goal ∧ tree.find? place = none ∧ run.tree.find? place = some .directory)

/-- A run between directories that are apart comes to an end, and leaves what it should. -/
theorem leaves_injectDirectory (tree : FileTree) (x : Injector) {inputDir outputDir : Path}
    (happart : Apart inputDir outputDir) : ∃ run mds mdxs,
      injectDirectory tree x inputDir outputDir = .ok run ∧
        Leaves tree x inputDir outputDir mds mdxs run := by
  have hstart : Processed tree x inputDir outputDir [] ⟨tree, x, []⟩ :=
    ⟨.refl tree inputDir outputDir, rfl, rfl, ⟨[], (List.append_nil _).symm, rfl⟩, fun _ h => nomatch h⟩
  obtain ⟨mds, middle, hmiddle, hmds, hfirst⟩ := hstart.addMatching happart
    (isPlain_of_mem List.mem_cons_self) fun _ hinputs => hinputs.once
  have honce : ∀ mdxs, Lists tree inputDir "mdx".toList mdxs → ((mds ++ mdxs).map resolve).Nodup :=
    fun mdxs hmdxs => hmds.nodup_append hmdxs (by decide) (by decide)
  obtain ⟨mdxs, run, hrun, hmdxs, hlast⟩ := hfirst.addMatching happart
    (isPlain_of_mem (List.mem_cons_of_mem _ List.mem_cons_self)) honce
  refine ⟨run, mds, mdxs, ?_, { hlast with
    md_listed := hmds
    mdx_listed := hmdxs
    once := honce mdxs hmdxs
    succeeds_iff := fun input hinput => ?_
    templates := hlast.beside.sameBelow happart
    elsewhere := hlast.beside.find?_eq_or }⟩
  · have hboth : injectDirectory tree x inputDir outputDir =
        (Run.addMatching inputDir outputDir ⟨tree, x, []⟩ (withExtension "md".toList)).bind fun next =>
          (Run.addMatching inputDir outputDir next (withExtension "mdx".toList)).bind .ok := rfl
    rw [hboth, hmiddle, Except.bind, hrun]
    rfl
  · obtain ⟨below, hlisted⟩ := (List.mem_append.mp hinput).elim (hmds.listed input) (hmdxs.listed input)
    exact ⟨below, hlisted, isSome_pageAlone_iff happart hlisted⟩

/-- A template that is no text, and one that asks for a snippet. -/
def badAndGood : FileTree :=
  let bad := (((∅ : FileTree).makeParent "t/bad.md".toList).1.write "t/bad.md".toList
    (.bytes [255, 254, 10])).toOption.getD ∅
  (bad.save "t/c/good.mdx".toList "<!-- snippet:s:cpp -->\n".toList).1

def oneSnippet : Injector := .ofSnippets (Dictionary.ofList [("s".toList, "f();".toList)])

/-- The one fails and has an error, the other has its page. -/
theorem leaves_injectDirectory_badAndGood : Apart "t".toList "o".toList ∧
    (∃ run mds mdxs, injectDirectory badAndGood oneSnippet "t".toList "o".toList = .ok run ∧
      Leaves badAndGood oneSnippet "t".toList "o".toList mds mdxs run) ∧
    (injectDirectory badAndGood oneSnippet "t".toList "o".toList).toOption.map (fun run =>
        (run.written, run.injector.errors.filterMap InjectError.file?,
          run.tree.read "o/c/good.mdx".toList)) =
      some ([⟨"t/c/good.mdx".toList, "o/c/good.mdx".toList, 1⟩], ["t/bad.md".toList],
        .ok "```cpp\nf();\n```\n".toList) := by
  have happart : Apart "t".toList "o".toList := ⟨by decide, by decide, by decide, by decide⟩
  exact ⟨happart, leaves_injectDirectory badAndGood oneSnippet happart, by decide +kernel⟩

end Injector
end DocTools.Snippet
