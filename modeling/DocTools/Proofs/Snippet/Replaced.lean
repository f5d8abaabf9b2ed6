import DocTools.Proofs.Snippet.Shown

/-! # Which snippets a template can ask for

A placeholder names a snippet between two colons and without blanks around, while a marker names it in
front of a bracket, blanks included. The main statement, `exists_replaces_iff`, says which stored
snippets some line of a template is replaced by: those whose name is spelled alike in both. -/
namespace DocTools.Snippet
set_option autoImplicit false

/-- A line of a template that asks for a snippet and is replaced by its code. -/
structure Replaces (snippets : Snippets) (line name code : Text) : Prop where
  single : line.lineRuns = [line]
  replaced : ∃ p, Placeholder.ofLine? line = some p ∧ p.name = name ∧
    inject snippets line = { output := p.block code, injected := 1, missing := [] }

theorem Replaces.name_spelled {snippets : Snippets} {line name code : Text}
    (h : Replaces snippets line name code) : ':' ∉ name ∧ name.IsTrimmed := by
  obtain ⟨p, hp, rfl, -⟩ := h.replaced
  exact Placeholder.name_of_ofLine? hp

theorem exists_replaces_iff {sources : List (Path × Text)} {name code : Text}
    (h : (Extractor.fresh.addTexts sources).snippets.get? name = some code) :
    (∃ line, Replaces (Extractor.fresh.addTexts sources).snippets line name code) ↔
      ':' ∉ name ∧ name.IsTrimmed := by
  constructor
  · rintro ⟨line, hline⟩
    exact hline.name_spelled
  · rintro ⟨hcolon, hname⟩
    obtain ⟨hne, -, hnameLine⟩ := name_of_stored h
    have hlanguage : '\n' ∉ "cpp".toList ∧ ':' ∉ "cpp".toList := by decide
    have hindent : ([] : Text).all isIndent = true := rfl
    have hp := Placeholder.ofLine?_plainLine hindent hne hcolon hlanguage.2
    rw [Text.trim_eq_self_iff.mpr hname] at hp
    have hline := lineRuns_plainLine List.not_mem_nil hnameLine hlanguage.1
    exact ⟨_, hline, _, hp, rfl, inject_of_ofLine? hline hp h⟩

/-- A name with blanks around it and one with a colon in it, each on a start and an end marker. -/
def oddNames : List (Path × Text) :=
  [("src/a.cpp".toList,
    Text.ofLines (["// [snippet: a ]", "x();", "// [/snippet: a ]", "// [snippet:b:c]", "y();",
      "// [/snippet:b:c]", "// [snippet:d e]", "z();", "// [/snippet:d e]"].map String.toList))]

theorem exists_replaces_iff_oddNames :
    (Extractor.fresh.addTexts oddNames).snippets.get? "d e".toList = some "z();".toList ∧
      ∃ line, Replaces (Extractor.fresh.addTexts oddNames).snippets line "d e".toList
        "z();".toList := by
  have h : (Extractor.fresh.addTexts oddNames).snippets.get? "d e".toList = some "z();".toList := by
    decide +kernel
  exact ⟨h, (exists_replaces_iff h).mpr (by decide)⟩

/-- Snippets are stored without an error that no template can ask for. -/
theorem not_exists_replaces_oddNames :
    (Extractor.fresh.addTexts oddNames).errors = [] ∧
    (Extractor.fresh.addTexts oddNames).snippets.get? " a ".toList = some "x();".toList ∧
    (Extractor.fresh.addTexts oddNames).snippets.get? "b:c".toList = some "y();".toList ∧
    (¬ ∃ line, Replaces (Extractor.fresh.addTexts oddNames).snippets line " a ".toList
      "x();".toList) ∧
    ¬ ∃ line, Replaces (Extractor.fresh.addTexts oddNames).snippets line "b:c".toList
      "y();".toList := by
  refine ⟨by decide +kernel, by decide +kernel, by decide +kernel, ?_, ?_⟩
  · rintro ⟨line, hline⟩
    exact absurd hline.name_spelled.2 (by decide)
  · rintro ⟨line, hline⟩
    exact absurd hline.name_spelled.1 (by decide)

end DocTools.Snippet
