import DocTools.Proofs.Snippet.LineByLine
import DocTools.Proofs.Snippet.Untouched

/-! # Templates in turn

A run takes its templates one after the other, each in the tree that those before it have left. A
template that is not read, or whose page is not saved, has its turn like any other. The main statement,
`foldl_add_turns`: a run over any list of templates gives each of them one turn, and what it has noted
at the end, its pages and whether there were errors, is told by these turns. -/
namespace DocTools.Snippet
set_option autoImplicit false

/-! ## Placeholders without a snippet -/

/-- Every placeholder of a text names a stored snippet. -/
def AllStored (snippets : Snippets) (text : Text) : Prop :=
  ∀ line ∈ text.lineRuns, ∀ f, CutInto line f → (snippets.get? f.name.trim).isSome

theorem missing_eq_nil_iff {snippets : Snippets} {text : Text} :
    (inject snippets text).missing = [] ↔ AllStored snippets text := by
  rw [inject, injectRuns_eq_injectionOf]
  constructor
  · intro h line hline f hf
    obtain ⟨index, hindex, rfl⟩ := List.mem_iff_getElem.mp hline
    have hnumbered : (text.lineRuns[index], 1 + index) ∈ text.lineRuns.zipIdx 1 :=
      List.mk_add_mem_zipIdx_iff_getElem?.mpr (List.getElem?_eq_getElem hindex)
    by_contra hnone
    rw [Option.not_isSome_iff_eq_none] at hnone
    have hmem := mem_missing_injectionOf_iff.mpr ⟨_, f, hnumbered, hf, rfl, hnone⟩
    rw [h] at hmem
    cases hmem
  · intro h
    refine List.eq_nil_iff_forall_not_mem.mpr fun m hm => ?_
    obtain ⟨number, name⟩ := m
    obtain ⟨line, f, hline, hf, rfl, hnone⟩ := mem_missing_injectionOf_iff.mp hm
    have hstored := h line (List.fst_mem_of_mem_zipIdx hline) f hf
    rw [hnone] at hstored
    cases hstored

namespace Injector

/-! ## One turn -/

/-- What comes of a template: it is not read, or its page is not saved, or there is a page. -/
inductive Fate where
  | unread
  | unsaved (text : Text)
  | page (text : Text)
  deriving DecidableEq, Repr

namespace Fate

/-- The text of the template, if it was read. -/
def text? : Fate → Option Text
  | unread => none
  | unsaved text | page text => some text

def isPage : Fate → Bool
  | page _ => true
  | _ => false

/-- A page without a placeholder left. -/
def Faultless (snippets : Snippets) (fate : Fate) : Prop :=
  ∃ text, fate = .page text ∧ AllStored snippets text

end Fate

section
variable (snippets : Snippets) (inputDir outputDir : Path)

/-- What comes of a template that has its turn in a tree, and the tree afterwards. -/
inductive Comes (tree : FileTree) (template : Path) : Fate → FileTree → Prop where
  | unread {e : IoError} (read : tree.read template = .error e) : Comes tree template .unread tree
  | unsaved {text : Text} {after : FileTree} {failure : Failure} (read : tree.read template = .ok text)
      (save : tree.save (outputPath inputDir outputDir template) (inject snippets text).output =
        (after, some failure)) : Comes tree template (.unsaved text) after
  | page {text : Text} {after : FileTree} (read : tree.read template = .ok text)
      (save : tree.save (outputPath inputDir outputDir template) (inject snippets text).output =
        (after, none)) : Comes tree template (.page text) after

/-- Templates that had their turns one after the other, with what came of them, and the tree that they
have left. -/
inductive Turns (start : FileTree) : List (Path × Fate) → FileTree → Prop where
  | start : Turns start [] start
  | next {done : List (Path × Fate)} {tree after : FileTree} {template : Path} {fate : Fate}
      (past : Turns start done tree)
      (comes : Comes snippets inputDir outputDir tree template fate after) :
      Turns start (done ++ [(template, fate)]) after

end

/-! ## What a run notes -/

/-- What a run has noted about the turns behind it: the templates that have pages, and whether there
were errors. -/
structure Notes (x : Injector) (done : List (Path × Fate)) (run : Run) : Prop where
  snippets_eq : run.injector.snippets = x.snippets
  errors_iff : run.injector.errors = [] ↔
    x.errors = [] ∧ ∀ turn ∈ done, turn.2.Faultless x.snippets
  written_eq : run.written.map WrittenPage.input =
    (done.filter fun turn => turn.2.isPage).map Prod.fst

section
variable {x : Injector} {inputDir outputDir template : Path} {done : List (Path × Fate)} {run : Run}

theorem Notes.append {fate : Fate} {next : Run} (h : Notes x done run)
    (hsnippets : next.injector.snippets = run.injector.snippets)
    (herrors : next.injector.errors = [] ↔ run.injector.errors = [] ∧ fate.Faultless x.snippets)
    (hwritten : next.written.map WrittenPage.input =
      run.written.map WrittenPage.input ++ if fate.isPage then [template] else []) :
    Notes x (done ++ [(template, fate)]) next where
  snippets_eq := hsnippets.trans h.snippets_eq
  errors_iff := by
    rw [herrors, h.errors_iff, and_assoc]
    simp only [List.forall_mem_append, List.forall_mem_singleton]
  written_eq := by
    rw [hwritten, h.written_eq, List.filter_append, List.map_append, List.filter_singleton]
    cases fate.isPage <;> rfl

/-- The turn of one more template. -/
theorem Notes.add (h : Notes x done run) (inputDir outputDir template : Path) : ∃ fate,
    Comes x.snippets inputDir outputDir run.tree template fate
      (Run.add inputDir outputDir run template).tree ∧
    Notes x (done ++ [(template, fate)]) (Run.add inputDir outputDir run template) := by
  cases hread : run.tree.read template with
  | error e =>
    rw [Run.add_of_read_error hread]
    refine ⟨.unread, .unread hread, h.append rfl ?_ (List.append_nil _).symm⟩
    refine ⟨fun hc => absurd hc (List.concat_ne_nil _ _), ?_⟩
    rintro ⟨-, _, ⟨⟩, -⟩
  | ok text =>
    cases hsave : run.tree.save (outputPath inputDir outputDir template)
        (run.injector.injectText template text).2.output with
    | mk after failure =>
      have hpage : (run.injector.injectText template text).2 = inject x.snippets text := by
        rw [injectText, h.snippets_eq]
      cases failure with
      | some failure =>
        rw [Run.add_of_save_error hread hsave]
        rw [hpage] at hsave
        refine ⟨.unsaved text, .unsaved hread hsave, h.append rfl ?_ (List.append_nil _).symm⟩
        refine ⟨fun hc => absurd hc (List.concat_ne_nil _ _), ?_⟩
        rintro ⟨-, _, ⟨⟩, -⟩
      | none =>
        rw [Run.add_of_save hread hsave]
        rw [hpage] at hsave
        refine ⟨.page text, .page hread hsave, h.append rfl ?_ (List.map_append ..)⟩
        show run.injector.errors ++ _ = [] ↔ _
        rw [List.append_eq_nil_iff, List.map_eq_nil_iff]
        refine and_congr_right fun _ => ?_
        rw [h.snippets_eq, missing_eq_nil_iff]
        constructor
        · exact fun hall => ⟨text, rfl, hall⟩
        · rintro ⟨_, ⟨⟩, hall⟩
          exact hall

/-! ## Many turns -/

variable {start : FileTree}

theorem Turns.eq_of_nil {snippets : Snippets} {after : FileTree}
    (h : Turns snippets inputDir outputDir start [] after) : after = start := by
  generalize hdone : ([] : List (Path × Fate)) = done at h
  cases h with
  | start => rfl
  | next _ _ => exact absurd hdone.symm (List.concat_ne_nil _ _)

/-- Every template of a list has its turn. -/
theorem foldl_add_turns (hturns : Turns x.snippets inputDir outputDir start done run.tree)
    (hnotes : Notes x done run) (templates : List Path) : ∃ more,
      more.map Prod.fst = templates ∧
      Turns x.snippets inputDir outputDir start (done ++ more)
        (templates.foldl (Run.add inputDir outputDir) run).tree ∧
      Notes x (done ++ more) (templates.foldl (Run.add inputDir outputDir) run) := by
  induction templates generalizing done run with
  | nil => exact ⟨[], rfl, by rwa [List.append_nil], by rwa [List.append_nil]⟩
  | cons template templates ih =>
    obtain ⟨fate, hcomes, hadd⟩ := hnotes.add inputDir outputDir template
    obtain ⟨more, hmore, hrest, hlast⟩ := ih (hturns.next hcomes) hadd
    refine ⟨(template, fate) :: more, by rw [List.map_cons, hmore], ?_, ?_⟩
    · rwa [List.append_cons]
    · rwa [List.append_cons]

end

end Injector
end DocTools.Snippet
