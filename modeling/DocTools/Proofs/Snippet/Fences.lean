import DocTools.Proofs.Snippet.LineByLine
import DocTools.Proofs.Snippet.Shown

/-! # What a fence holds

Whoever reads a page takes for code what stands behind an opening fence, up to the first line that
closes it. The code of a snippet is put between two fences as it is, and a line of its own can be such
a line. The main statement, `injectText_fences`: the fence of every block holds the lines of the code in
front of the first one that closes it, so that a block is one fence exactly if no line of the code
does. -/
namespace DocTools.Snippet
set_option autoImplicit false

/-! ## Fences as they are read -/

/-- Blanks at its ends apart, the line is three backticks or more. -/
def ClosesFence (line : Text) : Prop :=
  fence.length ≤ line.trim.length ∧ line.trim.all (· ∈ fence) = true

instance : DecidablePred ClosesFence := fun _ => instDecidableAnd

/-- The lines of a block behind its opening fence, up to the first one that closes it. -/
def insideFence (block : Text) : List Text :=
  (block.lineRuns.drop 1).takeWhile fun line => ¬ClosesFence line

/-- The lines of a block from the first one on that closes its opening fence. -/
def fromClosing (block : Text) : List Text :=
  (block.lineRuns.drop 1).dropWhile fun line => ¬ClosesFence line

/-- The first line that closes the opening fence is the last one of the block. -/
def IsOneFence (block : Text) : Prop := (fromClosing block).length = 1

instance : DecidablePred IsOneFence := fun _ => instDecidableEqNat _ _

/-- A block that shows a piece of code between two fences, and what a reader takes for the code. -/
structure Fences (indent info code block : Text) : Prop where
  lineRuns_eq : block.lineRuns =
    (indent ++ fence ++ info ++ ['\n']) :: (Text.splitOn '\n' code).map (codeLine indent) ++
      [indent ++ fence ++ ['\n']]
  inside_eq : insideFence block =
    ((Text.splitOn '\n' code).takeWhile fun line => ¬ClosesFence line).map (codeLine indent)
  isOneFence_iff : IsOneFence block ↔ ∀ line ∈ Text.splitOn '\n' code, ¬ClosesFence line

/-! ## Lines that close a fence -/

section
variable {indent info code : Text}

/-- The indentation and the newline of a line are blanks at its ends. -/
theorem trim_codeLine (hindent : indent.allBlank = true) (line : Text) :
    (codeLine indent line).trim = line.trim := by
  rw [codeLine_eq, Text.trim_append_blanks _ rfl, indented]
  split
  · next hblank => exact (Text.trim_eq_nil_iff.mpr hblank).symm
  · exact Text.trim_blanks_append line hindent

theorem closesFence_codeLine (hindent : indent.allBlank = true) (line : Text) :
    ClosesFence (codeLine indent line) ↔ ClosesFence line := by
  rw [ClosesFence, trim_codeLine hindent]
  rfl

theorem closesFence_fence (hindent : indent.allBlank = true) :
    ClosesFence (indent ++ fence ++ ['\n']) := by
  have htrim : (indent ++ fence ++ ['\n']).trim = fence := by
    rw [Text.trim_append_blanks _ rfl, Text.trim_blanks_append _ hindent]
    decide
  rw [ClosesFence, htrim]
  decide

/-! ## One block -/

theorem lineRuns_fencedBlock (hindent : '\n' ∉ indent) (hinfo : '\n' ∉ info) :
    (fencedBlock indent info code).lineRuns =
      (indent ++ fence ++ info ++ ['\n']) :: (Text.splitOn '\n' code).map (codeLine indent) ++
        [indent ++ fence ++ ['\n']] := by
  have hfence : '\n' ∉ fence := by decide
  have hcode : ∀ line ∈ Text.splitOn '\n' code, '\n' ∉ indented indent line := fun line hline =>
    newline_not_mem_indented hindent (Text.not_mem_of_mem_splitOn hline)
  rw [fencedBlock_eq_ofLines, Text.lineRuns_ofLines, List.map_append, List.map_cons, List.map_map]
  · rw [funext (codeLine_eq indent)]
    rfl
  · rw [List.forall_mem_append, List.forall_mem_cons, List.forall_mem_map, List.forall_mem_singleton]
    exact ⟨⟨List.not_mem_append (List.not_mem_append hindent hfence) hinfo, hcode⟩,
      List.not_mem_append hindent hfence⟩

/-- An element that a scan does not pass stops it at the end, when none has stopped it before. -/
theorem takeWhile_concat_of_neg {α : Type} {p : α → Bool} {last : α} (h : ¬p last) (front : List α) :
    (front ++ [last]).takeWhile p = front.takeWhile p := by
  induction front with
  | nil => exact List.takeWhile_cons_of_neg h
  | cons a front ih => rw [List.cons_append, List.takeWhile_cons, List.takeWhile_cons, ih]

theorem dropWhile_concat_of_neg {α : Type} {p : α → Bool} {last : α} (h : ¬p last) (front : List α) :
    (front ++ [last]).dropWhile p = front.dropWhile p ++ [last] := by
  induction front with
  | nil => exact List.dropWhile_cons_of_neg h
  | cons a front ih =>
    rw [List.cons_append, List.dropWhile_cons, List.dropWhile_cons, ih]
    split
    · rfl
    · rfl

theorem fences_fencedBlock (hindent : indent.all isIndent = true) (hinfo : '\n' ∉ info) :
    Fences indent info code (fencedBlock indent info code) := by
  have hblank := allBlank_of_isIndent hindent
  have hlines := @lineRuns_fencedBlock indent info code (newline_not_mem_of_isIndent hindent) hinfo
  have hbehind : (fencedBlock indent info code).lineRuns.drop 1 =
      (Text.splitOn '\n' code).map (codeLine indent) ++ [indent ++ fence ++ ['\n']] := by
    rw [hlines, List.cons_append]
    rfl
  have hclosing : ¬decide ¬ClosesFence (indent ++ fence ++ ['\n']) := by
    simpa using closesFence_fence hblank
  have htake := takeWhile_concat_of_neg (p := fun line => ¬ClosesFence line) hclosing
  have hdrop := dropWhile_concat_of_neg (p := fun line => ¬ClosesFence line) hclosing
  -- a line of the code stops the scans exactly if it does so without its indentation
  have hopen : (fun line => decide ¬ClosesFence line) ∘ codeLine indent =
      fun line => decide ¬ClosesFence line := by
    funext line
    rw [Function.comp_apply, decide_eq_decide, closesFence_codeLine hblank]
  refine ⟨hlines, ?_, ?_⟩
  · rw [insideFence, hbehind, htake, List.takeWhile_map, hopen]
  · rw [IsOneFence, fromClosing, hbehind, hdrop, List.dropWhile_map, hopen,
      List.length_append, List.length_singleton, Nat.add_eq_right, List.length_eq_zero_iff,
      List.map_eq_nil_iff, List.dropWhile_eq_nil_iff]
    simp only [decide_eq_true_eq]

end

/-! ## Info strings -/

theorem not_mem_quoteTitle {c : Char} {attributes : Text} (h : c ∉ attributes) (hquote : c ≠ '"') :
    c ∉ quoteTitle attributes := by
  rw [quoteTitle]
  split
  · next value hvalue =>
    rw [Text.after?_eq_some_iff.mp hvalue, List.mem_append, not_or] at h
    split
    · rw [Text.after?_eq_some_iff.mp hvalue, List.mem_append, not_or]
      exact h
    · simp only [List.mem_append, List.mem_cons, List.not_mem_nil, not_or]
      exact ⟨⟨h.1, hquote, h.2⟩, hquote, not_false⟩
  · exact h

theorem not_mem_infoString {c : Char} {language : Text} {attributes : Option Text} (hl : c ∉ language)
    (ha : ∀ a ∈ attributes, c ∉ a) (hquote : c ≠ '"') (hspace : c ≠ ' ') :
    c ∉ infoString language attributes := by
  rw [infoString]
  split
  · exact hl
  · exact hl
  · next trimmed _ htrimmed =>
    obtain ⟨a, hmem, rfl⟩ := Option.map_eq_some_iff.mp htrimmed
    have htitle : c ∉ quoteTitle a.trim :=
      not_mem_quoteTitle (fun hc => ha a hmem (Text.mem_of_mem_trim hc)) hquote
    rw [List.mem_append, List.mem_cons, not_or, not_or]
    exact ⟨hl, hspace, htitle⟩

theorem Fields.mem_rest_of_mem_language {c : Char} (f : Fields) (h : c ∈ f.language) : c ∈ f.rest := by
  rw [Fields.rest]
  split
  · exact h
  · exact List.mem_append_left _ h

theorem Fields.mem_rest_of_mem_attributes {c : Char} {a : Text} (f : Fields) (ha : a ∈ f.attributes)
    (h : c ∈ a) : c ∈ f.rest := by
  rw [Fields.rest, ha]
  exact List.mem_append_right _ (List.mem_cons_of_mem _ h)

/-- A line of a template ends behind its placeholder, so no field has a newline. -/
theorem CutInto.newline_not_mem_infoString {text line : Text} {f : Fields} (cut : CutInto line f)
    (hline : line ∈ text.lineRuns) : '\n' ∉ infoString f.language.trim f.attributes := by
  obtain ⟨opening, closing, behind, -, -, -, rfl⟩ := cut.line_eq
  rw [List.append_assoc _ commentClose] at hline
  have hfront := Text.newline_not_mem_of_append_mem_lineRuns hline (List.cons_ne_nil _ _)
  simp only [List.mem_append, List.mem_cons, not_or] at hfront
  have hrest : '\n' ∉ f.rest := hfront.1.2.2
  have hlanguage : '\n' ∉ f.language := fun hc => hrest (f.mem_rest_of_mem_language hc)
  refine not_mem_infoString (fun hc => hlanguage (Text.mem_of_mem_trim hc)) ?_ (by decide) (by decide)
  exact fun a ha hc => hrest (f.mem_rest_of_mem_attributes ha hc)

/-! ## All lines of a template -/

/-- What a line of a template leaves in the page, and what its fence holds when that is a block. -/
inductive LeavesFence (snippets : Snippets) (line : Text) : Stretch → Prop where
  | kept (h : ¬Resolved snippets line) : LeavesFence snippets line (.kept line)
  | block {f : Fields} {code block : Text} (cut : CutInto line f)
      (stored : snippets.get? f.name.trim = some code)
      (fences : Fences f.indent (infoString f.language.trim f.attributes) code block) :
      LeavesFence snippets line (.block block)

theorem Becomes.leavesFence {snippets : Snippets} {text line : Text} {stretch : Stretch}
    (h : Becomes snippets line stretch) (hline : line ∈ text.lineRuns) :
    LeavesFence snippets line stretch := by
  cases h with
  | kept hnot => exact .kept hnot
  | block cut stored =>
    exact .block cut stored
      (fences_fencedBlock cut.indent_all (cut.newline_not_mem_infoString hline))

/-- A page has one stretch for each line of its template, and each block in it is the code between an
opening fence and a closing one. What the opening fence holds are the lines of the code in front of the
first one that closes it; the block is one fence exactly if no line of the code closes it. -/
theorem injectText_fences (x : Injector) (path : Path) (text : Text) :
    ∃ stretches, List.Forall₂ (LeavesFence x.snippets) text.lineRuns stretches ∧
      (x.injectText path text).2.output = stretches.flatMap Stretch.text := by
  have hpage : (x.injectText path text).2 = injectionOf x.snippets 1 text.lineRuns :=
    injectRuns_eq_injectionOf x.snippets 1 text.lineRuns
  refine ⟨text.lineRuns.map (stretchOf x.snippets), ?_, ?_⟩
  · rw [List.forall₂_map_right_iff, List.forall₂_same]
    exact fun line hline => (becomes_stretchOf x.snippets line).leavesFence hline
  · rw [hpage]
    exact (madeOf_injectionOf x.snippets text).output_eq

/-! ## A snippet with fences of its own -/

/-- A source whose snippet is a comment that shows a call in a fence. -/
def usageSources : List (Path × Text) :=
  [("src/usage.cpp".toList,
    Text.ofLines (["// [snippet:usage]", "/*", "```", "run();", "```", "*/",
      "// [/snippet:usage]"].map String.toList))]

theorem injectText_not_oneFence :
    ∃ block, ((Injector.ofSnippets (Extractor.fresh.addTexts usageSources).snippets).injectText
        "t.md".toList "<!-- snippet:usage:cpp -->\n".toList).2 = ⟨block, 1, []⟩ ∧
      block.lineRuns = ["```cpp\n", "/*\n", "```\n", "run();\n", "```\n", "*/\n", "```\n"].map
        String.toList ∧
      insideFence block = ["/*\n".toList] ∧ ¬IsOneFence block :=
  ⟨Text.ofLines (["```cpp", "/*", "```", "run();", "```", "*/", "```"].map String.toList),
    by decide +kernel⟩

end DocTools.Snippet
