import DocTools.Command.InjectSnippets
import DocTools.Proofs.Snippet.Placed

/-! # Pages beside their templates

The command that injects snippets has its templates and its pages in two directories below the root.
The main statement says for every directory, and for every root when no directory is given, which
pages are written at the path of their template below the output directory: all of them, unless the
directory of the templates is spelled with `.` in front of further components. The standard root is
`.`, so that the command without arguments is such a case. -/
namespace DocTools.Command.InjectSnippets
set_option autoImplicit false

open Snippet
open Snippet.Injector (IsDotted Placed)
open DocTools.Path (Component resolve)

/-- Settings that give a root and no directories. -/
def Settings.ofRoot (root : Path) (store : Option Path) : Settings := ⟨root, store, none, none⟩

def templateNames : List Text :=
  ["docs".toList, "src".toList, "content".toList, "docs-templates".toList]

theorem isEntryName_templateNames : ∀ name ∈ templateNames, IsEntryName name := by decide

theorem components_templateDir (root : Path) (store : Option Path) :
    (Settings.ofRoot root store).templateDir.components =
      root.components ++ templateNames.map Component.name := by
  show (Path.join (Path.join (Path.join (Path.join root _) _) _) _).components = _
  rw [Path.components_join_name, Path.components_join_name, Path.components_join_name,
    Path.components_join_name, List.append_assoc, List.append_assoc, List.append_assoc]
  · rfl
  all_goals exact isEntryName_templateNames _ (by decide)

theorem isDotted_templateDir_iff (root : Path) (store : Option Path) :
    IsDotted (Settings.ofRoot root store).templateDir ↔ root.components.head? = some .here := by
  rw [IsDotted, components_templateDir]
  cases root.components with
  | nil => decide
  | cons first rest =>
    refine ⟨fun h => h.1, fun h => ⟨h, fun hc => ?_⟩⟩
    have hlen := congrArg List.length hc
    rw [List.length_append, List.length_map] at hlen
    exact absurd hlen (by simp [templateNames])

theorem resolve_templateDir (root : Path) (store : Option Path) :
    resolve (Settings.ofRoot root store).templateDir = resolve root ++ templateNames :=
  Path.resolve_of_components (components_templateDir root store)

theorem tree_runWithSnippets {tree : FileTree} {s : Settings} {snippets : Snippets}
    {done : Injector.Run}
    (h : (Injector.ofSnippets snippets).injectDirectory tree s.templateDir s.pageDir = .ok done) :
    (runWithSnippets tree s snippets).tree = done.tree := by
  rw [runWithSnippets, h]

/-- Pages are written at the path of their template below the output directory exactly if the
directory of the templates is not spelled with `.` in front; without a directory given, if the root
does not begin with `.`. -/
theorem page_mirrors_template_iff (tree : FileTree) (x : Injector) (inputDir outputDir root : Path)
    (store : Option Path) :
    (∃ run, x.injectDirectory tree inputDir outputDir = .ok run ∧
      ∀ page ∈ run.written, ∃ below, Placed run.tree inputDir outputDir below page) ∧
    ((∃ e, Store.load tree (Settings.ofRoot root store).storePath = .error e ∧
        (runWith tree (.ofRoot root store)).tree = tree) ∨
      ∃ snippets run, Store.load tree (Settings.ofRoot root store).storePath = .ok snippets ∧
        (Injector.ofSnippets snippets).injectDirectory tree (Settings.ofRoot root store).templateDir
          (Settings.ofRoot root store).pageDir = .ok run ∧
        (runWith tree (.ofRoot root store)).tree = run.tree ∧
        ∀ page ∈ run.written, ∃ below,
          Placed run.tree (Settings.ofRoot root store).templateDir (Settings.ofRoot root store).pageDir
            below page ∧
          resolve page.input = resolve root ++ templateNames ++ below ∧
          (page.output = (Settings.ofRoot root store).pageDir.join (FileTree.pathOf below) ↔
            root.components.head? ≠ some .here)) := by
  refine ⟨Injector.placed_injectDirectory tree x inputDir outputDir, ?_⟩
  cases hload : Store.load tree (Settings.ofRoot root store).storePath with
  | error e =>
    refine .inl ⟨e, rfl, ?_⟩
    rw [runWith, hload]
  | ok snippets =>
    obtain ⟨run, hrun, hplaced⟩ := Injector.placed_injectDirectory tree (.ofSnippets snippets)
      (Settings.ofRoot root store).templateDir (Settings.ofRoot root store).pageDir
    refine .inr ⟨snippets, run, rfl, hrun, ?_, ?_⟩
    · rw [runWith, hload]
      exact tree_runWithSnippets hrun
    · intro page hpage
      obtain ⟨below, hbelow⟩ := hplaced page hpage
      refine ⟨below, hbelow, ?_, ?_⟩
      · rw [hbelow.input_resolve, resolve_templateDir]
      · rw [hbelow.output_eq_iff, isDotted_templateDir_iff]

/-! ## The standard root -/

def oneTemplate : FileTree :=
  ((FileTree.empty.save "docs/generated/snippets.json".toList "\x7b\x7d".toList).1.save
    "docs/src/content/docs-templates/a.md".toList "x\n".toList).1

/-- Below the standard root the page of `a.md` is not where the others would be: the path of the
template is there a second time. -/
theorem page_misplaced_below_standardRoot :
    (runWith oneTemplate (.ofRoot standardRoot none)).tree.read
        "docs/src/content/docs/docs/src/content/docs-templates/a.md".toList = .ok "x\n".toList ∧
      (runWith oneTemplate (.ofRoot standardRoot none)).tree.read
        "docs/src/content/docs/a.md".toList = .error .notFound := by
  decide +kernel

end DocTools.Command.InjectSnippets
