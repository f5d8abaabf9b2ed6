import DocTools.Proofs.FileTree.Reading
import DocTools.Proofs.Json.ReadBack
import DocTools.Snippet.Store

/-! # Saved snippets

The store that the extractor leaves is the store that the injector finds. The main statement is
`load_of_save`: after a successful save, loading from the same path gives the snippets that were
saved, whatever characters their names and their code are made of. -/
namespace DocTools.Snippet.Store
set_option autoImplicit false

theorem ofText_text (snippets : Snippets) : ofText (text snippets) = .ok snippets := by
  rw [ofText, text, Json.entries?_object]
  exact congrArg Except.ok (Dictionary.ofList_toList snippets)

theorem load_of_read {tree : FileTree} {path : Path} {snippets : Snippets}
    (h : tree.read path = .ok (text snippets)) : load tree path = .ok snippets := by
  rw [load, h]
  simp only
  rw [ofText_text]
  rfl

theorem load_of_save {tree after : FileTree} {path : Path} {snippets : Snippets}
    (h : save tree path snippets = (after, none)) : load after path = .ok snippets :=
  load_of_read (FileTree.read_of_save h)

/-- An empty name and empty code, both kinds of escape, and characters that need one to four bytes. -/
def mixedSnippets : Snippets :=
  Dictionary.ofList [([], "\"\\/\n\r\t".toList), ("a\x01\x1f\x7f".toList, []),
    ("é\u2028".toList, "x\n\n  y\x08\x0c".toList), ("😀".toList, "\uffff\ud7ff".toList)]

theorem load_of_save_mixedSnippets :
    ∃ after, save ∅ "docs/generated/snippets.json".toList mixedSnippets = (after, none) ∧
      load after "docs/generated/snippets.json".toList = .ok mixedSnippets := by
  have h : (save ∅ "docs/generated/snippets.json".toList mixedSnippets).2 = none := by decide +kernel
  exact ⟨_, Prod.ext rfl h, load_of_save (Prod.ext rfl h)⟩

end DocTools.Snippet.Store
