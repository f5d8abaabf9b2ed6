import DocTools.Proofs.Snippet.Requests
import DocTools.Proofs.Snippet.Unindented

/-! # The form of what is stored

All code that a store holds has gone through `dedent`, and its lines come from between two markers. The
main statements: `mem_splitOn_dedent`, which says what is left of the lines of a block, `isNormal_dedent`
for one block, and `stored_in_normal_form` for everything that an extractor can have stored, whatever it
was given. -/
namespace DocTools.Snippet
set_option autoImplicit false

/-! ## Code -/

/-- Code without common indentation, without blanks on blank lines and without markers. -/
structure IsNormal (code : Text) : Prop where
  dedent_eq : dedent (Text.splitOn '\n' code) = code
  eq_nil_of_allBlank : ∀ line ∈ Text.splitOn '\n' code, line.allBlank = true → line = []
  starts : code = [] ∨ ∃ line ∈ Text.splitOn '\n' code, ∃ c, line.head? = some c ∧ isBlank c = false
  not_isMarkerLine : ∀ line ∈ Text.splitOn '\n' code, ¬IsMarkerLine line

/-! ## What is left of a line -/

section
variable {line : Text} {k : Nat}

/-- A line without a part of its indentation is a marker exactly if it was one. -/
theorem isMarkerLine_drop (h : k ≤ line.indentation) : IsMarkerLine (line.drop k) ↔ IsMarkerLine line := by
  have hread := Marker.ofLine?_blanks_append (allBlank_take h) (line.drop k)
  rw [List.take_append_drop] at hread
  rw [isMarkerLine_iff, isMarkerLine_iff, hread]

end

/-! ## What is left of a block -/

section
variable {lines : List Text}

/-- Each line that is left is empty, or it is one of the lines without a part of its indentation. -/
theorem mem_splitOn_dedent (hlines : ∀ line ∈ lines, '\n' ∉ line) {left : Text}
    (h : left ∈ Text.splitOn '\n' (dedent lines)) :
    left = [] ∨ ∃ line ∈ lines, ∃ k ≤ line.indentation, line.allBlank = false ∧ left = line.drop k := by
  cases hcommon : commonIndent? lines with
  | none =>
    rw [dedent_eq_nil hcommon] at h
    exact .inl (List.mem_singleton.mp h)
  | some k =>
    have hall := (commonIndent?_eq_some_iff.mp hcommon).2
    rw [splitOn_dedent hcommon hlines] at h
    obtain ⟨line, hline, rfl⟩ := List.mem_map.mp h
    rw [dropIndent]
    split
    · exact .inl rfl
    · next hnot =>
      have hnot := Bool.eq_false_iff.mpr hnot
      exact .inr ⟨line, hline, k, hall line hline hnot, hnot, rfl⟩

/-- Where something is left at all, the line with the least indentation is left without any. -/
theorem starts_dedent (hlines : ∀ line ∈ lines, '\n' ∉ line) :
    dedent lines = [] ∨
      ∃ left ∈ Text.splitOn '\n' (dedent lines), ∃ c, left.head? = some c ∧ isBlank c = false := by
  cases hcommon : commonIndent? lines with
  | none => exact .inl (dedent_eq_nil hcommon)
  | some k =>
    rw [splitOn_dedent hcommon hlines]
    exact .inr (unindented_map_dropIndent hcommon).starts

theorem isNormal_dedent (hlines : ∀ line ∈ lines, '\n' ∉ line)
    (hplain : ∀ line ∈ lines, ¬IsMarkerLine line) : IsNormal (dedent lines) where
  dedent_eq := dedent_splitOn_dedent hlines
  eq_nil_of_allBlank := by
    intro left hleft hblank
    rcases mem_splitOn_dedent hlines hleft with hnil | ⟨line, -, k, hk, hnot, rfl⟩
    · exact hnil
    · rw [allBlank_drop hk, hnot] at hblank
      cases hblank
  starts := starts_dedent hlines
  not_isMarkerLine := by
    intro left hleft
    rcases mem_splitOn_dedent hlines hleft with rfl | ⟨line, hline, k, hk, -, rfl⟩
    · decide
    · exact fun hmarker => hplain line hline ((isMarkerLine_drop hk).mp hmarker)

end

/-! ## What an extractor stores -/

theorem Completed.isNormal {text : Text} {b : Block} (h : Completed text.lines b) :
    IsNormal (dedent b.body) := by
  have hplain : ∀ line ∈ b.body, ¬IsMarkerLine line := by
    intro line hline
    rw [h.body] at hline
    exact of_decide_eq_true (List.mem_filter.mp hline).2
  exact isNormal_dedent (fun line hline => h.newline_not_mem_body hline) hplain

/-- All that is stored has a name that can stand in a marker, and code in normal form. -/
def Extractor.StoresNormal (x : Extractor) : Prop :=
  ∀ name code, x.snippets.get? name = some code → IsName name ∧ IsNormal code

theorem Takes.storesNormal {x y : Extractor} {texts : List Text} (h : Takes x (texts.flatMap blocksOf) y)
    (hx : x.StoresNormal) : y.StoresNormal := by
  intro name code hstored
  rw [h.snippets, get?_foldl_keepFirst, Option.or_eq_some_iff] at hstored
  rcases hstored with hbefore | ⟨-, hfound⟩
  · exact hx name code hbefore
  · obtain ⟨b, hb, rfl⟩ := Option.map_eq_some_iff.mp hfound
    obtain ⟨text, -, hmem⟩ := List.mem_flatMap.mp (List.mem_of_find?_eq_some hb)
    have hcompleted := ((blocksOf_blocksOf text).mem_iff b).mp hmem
    have hname : b.name = name := by simpa using List.find?_some hb
    exact ⟨hname ▸ hcompleted.isName, hcompleted.isNormal⟩

theorem storesNormal_serve (tree : FileTree) {x : Extractor} (h : x.StoresNormal) (request : Request) :
    (x.serve tree request).StoresNormal := by
  have htakes := takes_serve tree x request
  rw [← List.flatMap_map] at htakes
  exact htakes.storesNormal h

theorem storesNormal_serveAll {x : Extractor} (h : x.StoresNormal) (requests : List (FileTree × Request)) :
    (x.serveAll requests).StoresNormal := by
  induction requests generalizing x with
  | nil => exact h
  | cons r requests ih => exact ih (storesNormal_serve r.1 h r.2)

theorem storesNormal_fresh : Extractor.fresh.StoresNormal := by
  intro name code h
  cases (Dictionary.get?_empty name).symm.trans h

/-- Whatever texts, files and directories a new extractor is given, every name that it stores can stand
in a marker and all code that it stores is in normal form. -/
theorem stored_in_normal_form (requests : List (FileTree × Request)) {name code : Text}
    (h : (Extractor.fresh.serveAll requests).snippets.get? name = some code) :
    IsName name ∧ IsNormal code :=
  storesNormal_serveAll storesNormal_fresh requests name code h

/-- A text and a file that has more than one depth, blank lines, and a start marker inside its snippet. -/
def sluiceRequests : List (FileTree × Request) :=
  [(∅, .text ['p'] (Text.ofLines (["// [snippet:a]", "\t", "// [/snippet:a]"].map String.toList))),
    (((∅ : FileTree).save ['q'] (Text.ofLines (["// [snippet: b:c]", "  // [snippet:d]", "  open();", " ",
        "    shut();", "// [/snippet: b:c]"].map String.toList))).1, .file ['q'])]

theorem stored_in_normal_form_sluice :
    (Extractor.fresh.serveAll sluiceRequests).snippets.get? " b:c".toList =
      some "open();\n\n  shut();".toList ∧
    IsName " b:c".toList ∧ IsNormal "open();\n\n  shut();".toList := by
  have h : (Extractor.fresh.serveAll sluiceRequests).snippets.get? " b:c".toList =
      some "open();\n\n  shut();".toList := by decide +kernel
  exact ⟨h, stored_in_normal_form sluiceRequests h⟩

end DocTools.Snippet
