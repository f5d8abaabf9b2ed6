import DocTools.Proofs.FilePattern.Spelling
import DocTools.Proofs.FileTree.Growth
import DocTools.Snippet.Injector

/-! # Where pages are placed

A run over a directory of templates writes the page of each template below the output directory. The
main statement, `placed_injectDirectory`: a run comes to an end for every spelling of the directory,
and each page is then a file at `outputPath`. This is the path of the template below its directory
exactly if the directory is not spelled with `.` in front of further components; otherwise the whole
path of the template is put below the output directory. -/
namespace DocTools.Snippet.Injector
set_option autoImplicit false

open FilePattern (FoundBelow IsPlain withExtension)
open FileTree (Grows)
open DocTools.Path (Component resolve)

/-! ## The path of a page -/

/-- A path is spelled with `.` in front of further components. -/
def IsDotted (path : Path) : Prop :=
  path.components.head? = some .here ∧ path.components ≠ [.here]

instance (path : Path) : Decidable (IsDotted path) := inferInstanceAs (Decidable (_ ∧ _))

theorem below?_eq_none {dir path : Path} (hdir : dir.components.head? = some .here)
    (hpath : Component.here ∉ path.components) : Path.below? dir path = none := by
  rw [Path.below?, if_neg]
  intro hbegins
  apply hpath
  exact (List.isPrefixOf_iff_prefix.mp hbegins).subset (List.mem_of_head? hdir)

theorem here_not_mem_map (below : List Text) : Component.here ∉ below.map Component.name := by
  intro h
  obtain ⟨name, -, hname⟩ := List.mem_map.mp h
  cases hname

section
variable {tree : FileTree} {dir path : Path} {below : List Text}

theorem outputPath_of_isDotted (h : FoundBelow tree dir below path) (hdotted : IsDotted dir)
    (outputDir : Path) : outputPath dir outputDir path = outputDir.join path := by
  have hhere : Component.here ∉ path.components := by
    cases h.spelled with
    | top hdir _ => exact absurd hdir hdotted.2
    | plain hnot _ => exact absurd (List.mem_of_head? hdotted.1) hnot
    | dotted hne hnot hdir hpath =>
      rw [hpath, List.mem_append, not_or]
      exact ⟨hnot, here_not_mem_map below⟩
  rw [outputPath, below?_eq_none hdotted.1 hhere, Option.getD_none]

theorem outputPath_of_not_isDotted (h : FoundBelow tree dir below path) (hplain : ¬IsDotted dir)
    (outputDir : Path) : outputPath dir outputDir path = outputDir.join (FileTree.pathOf below) := by
  rw [outputPath]
  cases h.spelled with
  | top hdir hpath =>
    have hhere : Component.here ∉ path.components := by
      rw [hpath, Path.components_pathOf h.names]
      exact here_not_mem_map below
    rw [below?_eq_none (by rw [hdir]; rfl) hhere, Option.getD_none, hpath]
  | plain _ hpath => rw [Path.below?_of_components hpath, Option.getD_some]
  | dotted hne _ hdir _ =>
    refine absurd ⟨?_, ?_⟩ hplain
    · rw [hdir]
      rfl
    · rw [hdir]
      exact fun hc => hne (List.cons.inj hc).2

/-- Of a directory spelled with `.` in front, more is left in the path than what is below it. -/
theorem ne_pathOf_of_isDotted (h : FoundBelow tree dir below path) (hdotted : IsDotted dir) :
    path ≠ FileTree.pathOf below := by
  intro hpath
  have hcomponents := Path.components_pathOf h.names
  cases h.spelled with
  | top hdir _ => exact hdotted.2 hdir
  | plain hnot _ => exact hnot (List.mem_of_head? hdotted.1)
  | dotted hne _ _ heq =>
    rw [← hpath, heq] at hcomponents
    exact hne (List.append_left_eq_self.mp hcomponents)

theorem outputPath_eq_join_iff (h : FoundBelow tree dir below path) (outputDir : Path) :
    outputPath dir outputDir path = outputDir.join (FileTree.pathOf below) ↔ ¬IsDotted dir := by
  constructor
  · intro heq hdotted
    rw [outputPath_of_isDotted h hdotted] at heq
    exact ne_pathOf_of_isDotted h hdotted
      (Path.join_right_cancel h.relative (Path.isAbsolute_pathOf h.names) heq)
  · exact fun hplain => outputPath_of_not_isDotted h hplain outputDir

end

/-! ## One page -/

/-- A page in a tree, for the template that stands `below` the input directory. -/
structure Placed (tree : FileTree) (inputDir outputDir : Path) (below : List Text)
    (page : WrittenPage) : Prop where
  ne_nil : below ≠ []
  input_resolve : resolve page.input = resolve inputDir ++ below
  template : ∃ content, tree.find? (resolve inputDir ++ below) = some (.file content)
  written : tree.HasFile page.output
  output_eq_iff : page.output = outputDir.join (FileTree.pathOf below) ↔ ¬IsDotted inputDir
  output_of_isDotted : IsDotted inputDir → page.output = outputDir.join page.input

def AllPlaced (inputDir outputDir : Path) (run : Run) : Prop :=
  ∀ page ∈ run.written, ∃ below, Placed run.tree inputDir outputDir below page

section
variable {before after : FileTree} {inputDir outputDir : Path}

theorem Placed.grow {below : List Text} {page : WrittenPage} (h : Grows before after)
    (hpage : Placed before inputDir outputDir below page) :
    Placed after inputDir outputDir below page := by
  obtain ⟨content, hcontent⟩ := hpage.template
  exact { hpage with
    template := h.file _ content hcontent
    written := h.hasFile hpage.written }

theorem injectFile_writes (tree : FileTree) (x : Injector) (input output : Path) :
    Grows tree (injectFile tree x input output).1 ∧
      ∀ injected, (injectFile tree x input output).2.2 = .ok injected →
        (injectFile tree x input output).1.HasFile output := by
  unfold injectFile
  cases tree.read input with
  | error e => exact ⟨.refl tree, fun _ h => nomatch h⟩
  | ok text =>
    have hgrows : Grows tree (tree.save output (x.injectText input text).2.output).1 :=
      FileTree.grows_save ..
    simp only
    cases hsave : tree.save output (x.injectText input text).2.output with
    | mk after failure =>
      rw [hsave] at hgrows
      cases failure with
      | some f => exact ⟨hgrows, fun _ h => nomatch h⟩
      | none => exact ⟨hgrows, fun _ _ => FileTree.hasFile_of_save hsave⟩

/-! ## A run over templates -/

theorem grows_add (run : Run) (input : Path) :
    Grows run.tree (Run.add inputDir outputDir run input).tree := by
  have hgrows := (injectFile_writes run.tree run.injector input (outputPath inputDir outputDir input)).1
  unfold Run.add
  simp only
  split
  · rename_i after x injected hresult
    rwa [hresult] at hgrows
  · rename_i after x failure hresult
    rwa [hresult] at hgrows

theorem AllPlaced.add {tree : FileTree} {run : Run} {input : Path} {below : List Text}
    (h : AllPlaced inputDir outputDir run) (hfound : FoundBelow tree inputDir below input)
    (hgrown : Grows tree run.tree) : AllPlaced inputDir outputDir (Run.add inputDir outputDir run input) := by
  have hgrows : Grows run.tree (Run.add inputDir outputDir run input).tree := grows_add run input
  have hfile := injectFile_writes run.tree run.injector input (outputPath inputDir outputDir input)
  -- the template is still there, even if a page was written over it
  obtain ⟨content, hstands⟩ := hfound.stands
  obtain ⟨content', hstands'⟩ := (hgrown.trans hgrows).file _ content hstands
  have hold : ∀ page ∈ run.written,
      ∃ below, Placed (Run.add inputDir outputDir run input).tree inputDir outputDir below page := by
    intro page hpage
    obtain ⟨below, hplaced⟩ := h page hpage
    exact ⟨below, hplaced.grow hgrows⟩
  unfold AllPlaced
  unfold Run.add at hold hstands' ⊢
  simp only at hold hstands' ⊢
  cases hresult : injectFile run.tree run.injector input (outputPath inputDir outputDir input) with
  | mk after rest =>
    obtain ⟨x, result⟩ := rest
    rw [hresult] at hfile hold hstands'
    cases result with
    | error failure => exact hold
    | ok injected =>
      intro page hpage
      rcases List.mem_append.mp hpage with hpage | hpage
      · exact hold page hpage
      · obtain rfl := List.mem_singleton.mp hpage
        exact ⟨below, hfound.ne_nil, hfound.resolve_eq, ⟨content', hstands'⟩, hfile.2 injected rfl,
          outputPath_eq_join_iff hfound outputDir, fun hd => outputPath_of_isDotted hfound hd outputDir⟩

theorem AllPlaced.foldl_add {tree : FileTree} {run : Run} {inputs : List Path}
    (h : AllPlaced inputDir outputDir run)
    (hfound : ∀ input ∈ inputs, ∃ below, FoundBelow tree inputDir below input)
    (hgrown : Grows tree run.tree) :
    AllPlaced inputDir outputDir (inputs.foldl (Run.add inputDir outputDir) run) := by
  induction inputs generalizing run with
  | nil => exact h
  | cons input inputs ih =>
    obtain ⟨below, hinput⟩ := hfound input List.mem_cons_self
    exact ih (h.add hinput hgrown) (fun i hi => hfound i (List.mem_cons_of_mem _ hi))
      (hgrown.trans (grows_add run input))

theorem glob_withExtension (tree : FileTree) (dir : Path) {extension : Text} (h : IsPlain extension) :
    tree.glob dir (withExtension extension) =
      .ok (FilePattern.files tree ⟨FilePattern.segmentsBelow dir extension, false⟩) :=
  FilePattern.glob_below tree (FilePattern.ofText_patternBelow dir h)

theorem AllPlaced.addMatching {run : Run} (h : AllPlaced inputDir outputDir run) {extension : Text}
    (hplain : IsPlain extension) :
    ∃ done, Run.addMatching inputDir outputDir run (withExtension extension) = .ok done ∧
      AllPlaced inputDir outputDir done := by
  have hfound : ∀ input ∈ FilePattern.files run.tree
      ⟨FilePattern.segmentsBelow inputDir extension, false⟩,
      ∃ below, FoundBelow run.tree inputDir below input :=
    fun input hinput => FilePattern.foundBelow_of_mem_files hinput
  refine ⟨_, ?_, h.foldl_add hfound (.refl run.tree)⟩
  rw [Run.addMatching, glob_withExtension run.tree inputDir hplain]
  rfl

theorem AllPlaced.foldlM_addMatching {run : Run} (h : AllPlaced inputDir outputDir run)
    {extensions : List Text} (hplain : ∀ extension ∈ extensions, IsPlain extension) :
    ∃ done, (extensions.map withExtension).foldlM (Run.addMatching inputDir outputDir) run = .ok done ∧
      AllPlaced inputDir outputDir done := by
  induction extensions generalizing run with
  | nil => exact ⟨run, rfl, h⟩
  | cons extension extensions ih =>
    obtain ⟨next, hnext, hplaced⟩ := h.addMatching (hplain extension List.mem_cons_self)
    obtain ⟨done, hdone, hall⟩ := ih hplaced fun e he => hplain e (List.mem_cons_of_mem _ he)
    refine ⟨done, ?_, hall⟩
    rw [List.map_cons, List.foldlM_cons, hnext]
    exact hdone

end

/-! ## All templates of a directory -/

theorem templatePatterns_eq : templatePatterns = ["md".toList, "mdx".toList].map withExtension := rfl

theorem isPlain_of_mem {extension : Text} (h : extension ∈ ["md".toList, "mdx".toList]) :
    IsPlain extension := by
  have hall : ∀ e ∈ ["md".toList, "mdx".toList], IsPlain e := by decide
  exact hall extension h

theorem placed_injectDirectory (tree : FileTree) (x : Injector) (inputDir outputDir : Path) :
    ∃ run, injectDirectory tree x inputDir outputDir = .ok run ∧
      AllPlaced inputDir outputDir run := by
  have hstart : AllPlaced inputDir outputDir ⟨tree, x, []⟩ := fun page hpage => nomatch hpage
  rw [injectDirectory, templatePatterns_eq]
  exact hstart.foldlM_addMatching fun _ h => isPlain_of_mem h

end DocTools.Snippet.Injector
