import DocTools.Proofs.Snippet.Dedent
import DocTools.Proofs.Snippet.Placeholder
import DocTools.Proofs.Snippet.Saved
import DocTools.Proofs.Snippet.Stored
import DocTools.Snippet.Injector

/-! # How a snippet is shown

A page shows a snippet between two fences, under the indentation of its placeholder, and nothing of
the code is lost by that: the common indentation taken off again, the lines shown are the code. The
main statement, `injectText_of_stored`, follows a snippet from the file it is extracted from through
the store into a page. -/
namespace DocTools.Snippet
set_option autoImplicit false

/-! ## Lines of a block -/

theorem codeLine_eq (indent line : Text) : codeLine indent line = indented indent line ++ ['\n'] := by
  rw [codeLine, indented]
  split
  · rfl
  · rfl

theorem fencedBlock_eq_ofLines (indent info code : Text) :
    fencedBlock indent info code = Text.ofLines
      ((indent ++ fence ++ info) :: (Text.splitOn '\n' code).map (indented indent) ++
        [indent ++ fence]) := by
  have hcode : codeLine indent = fun line => indented indent line ++ ['\n'] :=
    funext (codeLine_eq indent)
  rw [fencedBlock, hcode, Text.ofLines, List.cons_append, List.flatMap_cons, List.flatMap_append,
    List.flatMap_map, List.flatMap_singleton]
  simp only [List.append_assoc, List.cons_append, List.nil_append]

/-- Lines that show a piece of code under an indentation. -/
structure Shows (indent : Text) (body : List Text) (code : Text) : Prop where
  newline_not_mem : ∀ line ∈ body, '\n' ∉ line
  eq_nil_or_indented : ∀ line ∈ body, line = [] ∨ line.allBlank = false ∧ indent <+: line
  dedent_eq : dedent body = code

theorem shows_indented {indent code : Text} (hindent : indent.allBlank = true) (hline : '\n' ∉ indent)
    (hcode : dedent (Text.splitOn '\n' code) = code) :
    Shows indent ((Text.splitOn '\n' code).map (indented indent)) code := by
  refine ⟨List.forall_mem_map.mpr fun line hmem => ?_, List.forall_mem_map.mpr fun line _ => ?_, ?_⟩
  · exact newline_not_mem_indented hline (Text.not_mem_of_mem_splitOn hmem)
  · rw [allBlank_indented, indented]
    split
    · exact .inl rfl
    · next h => exact .inr ⟨Bool.eq_false_iff.mpr h, List.prefix_append indent line⟩
  · rw [dedent_map_indented hindent, hcode]

/-! ## One placeholder -/

theorem inject_of_ofLine? {snippets : Snippets} {line code : Text} {p : Placeholder}
    (hline : line.lineRuns = [line]) (hp : Placeholder.ofLine? line = some p)
    (hcode : snippets.get? p.name = some code) : inject snippets line = ⟨p.block code, 1, []⟩ := by
  have hsettle : settle snippets line = .replaced (p.block code) := by
    rw [settle, hp]
    simp only [hcode]
  rw [inject, hline, injectRuns]
  simp only [hsettle]
  simp [injectRuns]

theorem allBlank_of_isIndent {indent : Text} (h : indent.all isIndent = true) :
    indent.allBlank = true := by
  rw [Text.allBlank, List.all_eq_true]
  intro c hc
  have hi := List.all_eq_true.mp h c hc
  rw [isIndent, Bool.or_eq_true, beq_iff_eq, beq_iff_eq] at hi
  rcases hi with rfl | rfl
  · decide
  · decide

theorem newline_not_mem_of_isIndent {indent : Text} (h : indent.all isIndent = true) : '\n' ∉ indent :=
  fun hc => absurd (List.all_eq_true.mp h '\n' hc) (by decide)

theorem lineRuns_plainLine {indent name language : Text} (hindent : '\n' ∉ indent)
    (hname : '\n' ∉ name) (hlanguage : '\n' ∉ language) :
    Text.lineRuns (Placeholder.plainLine indent name language ++ ['\n']) =
      [Placeholder.plainLine indent name language ++ ['\n']] := by
  refine Text.lineRuns_cons_line ?_ []
  have hopen : '\n' ∉ "<!-- snippet:".toList := by decide
  have hclose : '\n' ∉ " -->".toList := by decide
  have hcolon : '\n' ≠ ':' := by decide
  simp only [Placeholder.plainLine, List.mem_append, List.mem_cons, not_or]
  exact ⟨⟨⟨⟨hindent, hopen⟩, hname⟩, hcolon, hlanguage⟩, hclose⟩

/-! ## From a source file into a page -/

/-- A snippet of some files is found by its placeholder in a store that was saved and loaded, and the
page shows it: an opening fence with the language, lines that show the code, and a closing fence. -/
theorem injectText_of_stored {sources : List (Path × Text)} {name code : Text}
    (hcode : (Extractor.fresh.addTexts sources).snippets.get? name = some code) (hcolon : ':' ∉ name)
    (hname : name.IsTrimmed) {tree after : FileTree} {store : Path}
    (hsave : Store.save tree store (Extractor.fresh.addTexts sources).snippets = (after, none))
    {indent language : Text} (hindent : indent.all isIndent = true) (hlanguage : language.IsTrimmed)
    (hlanguageColon : ':' ∉ language) (hlanguageLine : '\n' ∉ language) (template : Path) :
    ∃ loaded body, Store.load after store = .ok loaded ∧ Shows indent body code ∧
      (Injector.ofSnippets loaded).injectText template
          (Placeholder.plainLine indent name language ++ ['\n']) =
        (Injector.ofSnippets loaded,
          { output := Text.ofLines ((indent ++ fence ++ language) :: body ++ [indent ++ fence])
            injected := 1
            missing := [] }) := by
  obtain ⟨hne, -, hnameLine⟩ := name_of_stored hcode
  obtain ⟨lines, hlines, rfl⟩ := exists_body_of_stored hcode
  have hindentLine := newline_not_mem_of_isIndent hindent
  -- the stored code has no common indentation left, so only that of the placeholder comes off
  have hshows := shows_indented (allBlank_of_isIndent hindent) hindentLine (dedent_splitOn_dedent hlines)
  have hplaceholder := Placeholder.ofLine?_plainLine hindent hne hcolon hlanguageColon
  rw [Text.trim_eq_self_iff.mpr hname, Text.trim_eq_self_iff.mpr hlanguage] at hplaceholder
  have hinject := inject_of_ofLine? (lineRuns_plainLine hindentLine hnameLine hlanguageLine)
    hplaceholder hcode
  rw [Placeholder.block, fencedBlock_eq_ofLines] at hinject
  refine ⟨_, _, Store.load_of_read (FileTree.read_of_save hsave), hshows, ?_⟩
  rw [Injector.injectText, Injector.ofSnippets, hinject]
  rfl

/-- Two files of which the second repeats a name; the code has a blank line and more than one depth. -/
def dialSources : List (Path × Text) :=
  [("src/dial.cpp".toList,
      Text.ofLines (["  // [snippet:dial me]", "    while (up)", " ", "      go(\"é\");", "    stop();",
        "  // [/snippet:dial me]"].map String.toList)),
    ("src/other.cpp".toList,
      Text.ofLines (["// [snippet:dial me]", "x();", "// [/snippet:dial me]"].map String.toList))]

theorem injectText_of_stored_dialSources :
    ∃ after loaded body,
      Store.save ∅ "docs/snippets.json".toList (Extractor.fresh.addTexts dialSources).snippets =
        (after, none) ∧
      Store.load after "docs/snippets.json".toList = .ok loaded ∧
      Shows " \t".toList body "while (up)\n\n  go(\"é\");\nstop();".toList ∧
      (Injector.ofSnippets loaded).injectText "t.md".toList
          (Placeholder.plainLine " \t".toList "dial me".toList "c++".toList ++ ['\n']) =
        (Injector.ofSnippets loaded,
          { output := Text.ofLines ((" \t".toList ++ fence ++ "c++".toList) :: body ++
              [" \t".toList ++ fence])
            injected := 1
            missing := [] }) := by
  have hsave : (Store.save ∅ "docs/snippets.json".toList
      (Extractor.fresh.addTexts dialSources).snippets).2 = none := by decide +kernel
  have hcode : (Extractor.fresh.addTexts dialSources).snippets.get? "dial me".toList =
      some "while (up)\n\n  go(\"é\");\nstop();".toList := by decide +kernel
  have hindent : " \t".toList.all isIndent = true := by decide
  have hname : Text.IsTrimmed "dial me".toList := by decide
  have hlanguage : Text.IsTrimmed "c++".toList := by decide
  obtain ⟨loaded, body, hloaded, hshows, hinject⟩ :=
    injectText_of_stored hcode (by decide) hname (Prod.ext rfl hsave) hindent hlanguage
      (by decide) (by decide) "t.md".toList
  exact ⟨_, loaded, body, Prod.ext rfl hsave, hloaded, hshows, hinject⟩

end DocTools.Snippet
