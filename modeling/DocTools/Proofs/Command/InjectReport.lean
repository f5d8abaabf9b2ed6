import DocTools.Command.InjectSnippets
import DocTools.Proofs.Snippet.Rounds

/-! # What the command that injects snippets reports

A store that does not load, templates that are not read, pages that are not written and placeholders
without a snippet all lead to the same exit status. The main statement, `run_reports_injection`, says
when there is none of them, whatever directories are given, and that no template suffers from another
one. -/
namespace DocTools.Command.InjectSnippets
set_option autoImplicit false

open Snippet
open Snippet.Injector (Fate Rounds Turns outputPath)
open DocTools.Path (resolve)

/-! ## Runs with a store -/

/-- What a run has done once its store is loaded: each template that was found has had one turn, the
pages are there at the end, and the exit status and the last line of the output tell the outcomes. -/
structure Accounts (tree : FileTree) (s : Settings) (snippets : Snippets)
    (done : List (Path × Fate)) (run : Run) : Prop where
  found : ∃ mds mdxs, tree.glob s.templateDir "**/*.md".toList = .ok mds ∧
    tree.glob s.templateDir "**/*.mdx".toList = .ok mdxs ∧ done.map Prod.fst = mds ++ mdxs
  once : (done.map fun turn => resolve turn.1).Nodup
  turns : Turns snippets s.templateDir s.pageDir tree done run.tree
  status : run.code = 0 ↔ (∀ turn ∈ done, ∃ text, turn.2 = .page text) ∧
    ∀ turn ∈ done, ∀ text, turn.2.text? = some text → AllStored snippets text
  /-- A template that can be read at first is read, whatever came before it. -/
  reads : ∀ turn ∈ done, (∃ text, tree.read turn.1 = .ok text) → turn.2.text?.isSome
  /-- A template that is read has its page, unless none could be saved at first either. -/
  isPage_iff : ∀ turn ∈ done, turn.2.isPage ↔
    turn.2.text?.isSome ∧ tree.Writable (outputPath s.templateDir s.pageDir turn.1)
  pages : ∀ turn ∈ done, ∀ text, turn.2 = .page text →
    run.tree.read (outputPath s.templateDir s.pageDir turn.1) = .ok (inject snippets text).output
  pages_once : ((done.filter fun turn => turn.2.isPage).map fun turn =>
    resolve (outputPath s.templateDir s.pageDir turn.1)).Nodup
  count : ∃ before, run.out = before ++ line ("\nProcessed ".toList ++
    Text.ofNat (done.countP fun turn => turn.2.isPage) ++ " file(s)".toList)

theorem forall_faultless_iff {snippets : Snippets} {done : List (Path × Fate)} :
    (∀ turn ∈ done, turn.2.Faultless snippets) ↔ (∀ turn ∈ done, ∃ text, turn.2 = .page text) ∧
      ∀ turn ∈ done, ∀ text, turn.2.text? = some text → AllStored snippets text := by
  constructor
  · intro h
    refine ⟨fun turn hturn => (h turn hturn).imp fun _ => And.left, fun turn hturn text htext => ?_⟩
    obtain ⟨text', hpage, hall⟩ := h turn hturn
    rw [hpage] at htext
    exact Option.some.inj htext ▸ hall
  · rintro ⟨hpages, hall⟩ turn hturn
    obtain ⟨text, hpage⟩ := hpages turn hturn
    exact ⟨text, hpage, hall turn hturn text (by rw [hpage]; rfl)⟩

theorem exists_accounts (tree : FileTree) (s : Settings) (snippets : Snippets) :
    ∃ done, Accounts tree s snippets done (runWithSnippets tree s snippets) := by
  obtain ⟨run, done, hrun, h⟩ :=
    Injector.exists_rounds tree (.ofSnippets snippets) s.templateDir s.pageDir
  have hlength : run.written.length = done.countP fun turn => turn.2.isPage := by
    rw [List.countP_eq_length_filter, ← List.length_map WrittenPage.input, h.notes.written_eq,
      List.length_map]
  unfold runWithSnippets
  rw [hrun]
  refine ⟨done, h.found, h.once, h.turns, ?_, h.turns.isSome_text? h.templates,
    h.turns.isPage_iff h.templates, h.turns.read_page h.templates h.once,
    h.turns.nodup_pages h.templates h.once, openingLines s snippets ++ pageLines run.written, ?_⟩
  · dsimp only
    rw [statusOf_eq_zero_iff, List.isEmpty_iff, h.notes.errors_iff, ← forall_faultless_iff]
    exact and_iff_right rfl
  · rw [← hlength]
    rfl

/-! ## All runs -/

/-- Without a store nothing is changed; with one every template is accounted for. -/
structure Reports (tree : FileTree) (s : Settings) (run : Run) : Prop where
  refused : ∀ e, Store.load tree s.storePath = .error e → run.code ≠ 0 ∧ run.tree = tree
  accepted : ∀ snippets, Store.load tree s.storePath = .ok snippets →
    ∃ done, Accounts tree s snippets done run

theorem reports_runWith (tree : FileTree) (s : Settings) : Reports tree s (runWith tree s) := by
  unfold runWith
  cases hload : Store.load tree s.storePath with
  | error e =>
    refine ⟨fun _ _ => ⟨nofun, rfl⟩, fun snippets hc => ?_⟩
    rw [hload] at hc
    cases hc
  | ok snippets =>
    refine ⟨fun e hc => ?_, fun snippets' h => ?_⟩
    · rw [hload] at hc
      cases hc
    · rw [hload] at h
      obtain rfl := Except.ok.inj h
      exact exists_accounts tree s snippets

end DocTools.Command.InjectSnippets
