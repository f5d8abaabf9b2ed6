import DocTools.Proofs.Snippet.Dedent
import DocTools.Proofs.Snippet.Shown
import DocTools.Proofs.Snippet.Stored

/-! # Code that is put between markers

Code from which no common indentation can be taken off and that holds no marker can be written into a
source file, at any depth, and comes out of it as it went in. The main statements: `findings_between`,
by which two markers with lines between them make one block, and `addText_wrapped`, by which an extractor
stores exactly the code that was put between markers. -/
namespace DocTools.Snippet
set_option autoImplicit false

/-! ## Markers and the lines between them -/

def startLine (name : Text) : Text := "// [snippet:".toList ++ name ++ [']']

def stopLine (name : Text) : Text := "// [/snippet:".toList ++ name ++ [']']

section
variable {name : Text}

theorem ofLine?_startLine (hname : IsName name) : Marker.ofLine? (startLine name) = some (.start name) :=
  Marker.ofLine?_eq_start_iff.mpr
    ⟨hname.ne_nil, hname.bracket_not_mem, [], [' '], [], rfl, rfl, rfl, rfl⟩

theorem ofLine?_stopLine (hname : IsName name) : Marker.ofLine? (stopLine name) = some (.stop name) :=
  Marker.ofLine?_eq_stop_iff.mpr
    ⟨hname.ne_nil, hname.bracket_not_mem, [], [' '], [], rfl, rfl, rfl, rfl⟩

theorem newline_not_mem_startLine (hname : IsName name) : '\n' ∉ startLine name :=
  List.not_mem_append (List.not_mem_append (by decide) hname.newline_not_mem) (by decide)

theorem newline_not_mem_stopLine (hname : IsName name) : '\n' ∉ stopLine name :=
  List.not_mem_append (List.not_mem_append (by decide) hname.newline_not_mem) (by decide)

theorem getLast?_startLine (name : Text) : (startLine name).getLast? = some ']' := List.getLast?_concat

theorem getLast?_stopLine (name : Text) : (stopLine name).getLast? = some ']' := List.getLast?_concat

/-- Lines that are no markers go into the body of the snippet that is open. -/
theorem findingsFrom_append {body : List Text} (h : ∀ line ∈ body, ¬IsMarkerLine line) (line : Nat)
    (o : OpenBlock) (rest : List Text) :
    findingsFrom line (some o) (body ++ rest) =
      findingsFrom (line + body.length) (some { o with body := o.body ++ body }) rest := by
  induction body generalizing line o with
  | nil => rw [List.append_nil]; rfl
  | cons text body ih =>
    rw [List.forall_mem_cons] at h
    have hplain : Marker.ofLine? text = none := by
      rw [← Option.not_isSome_iff_eq_none, ← isMarkerLine_iff]
      exact h.1
    have hstep : findingsFrom line (some o) (text :: (body ++ rest)) =
        findingsFrom (line + 1) (some { o with body := o.body ++ [text] }) (body ++ rest) := by
      simp [findingsFrom_cons, Finding.atLine?, OpenBlock.next?, hplain]
    have hlines : line + 1 + body.length = line + (body.length + 1) := by omega
    rw [List.cons_append, hstep, ih h.2, List.length_cons, hlines, List.append_assoc,
      List.singleton_append]

/-- Two markers of one name make a block of the lines between them. -/
theorem findings_between (hname : IsName name) {body : List Text}
    (h : ∀ line ∈ body, ¬IsMarkerLine line) :
    findings (startLine name :: body ++ [stopLine name]) =
      [.block ⟨name, 1, 2 + body.length, body⟩] := by
  have hstart : findings (startLine name :: body ++ [stopLine name]) =
      findingsFrom 2 (some ⟨name, 1, []⟩) (body ++ [stopLine name]) := by
    simp [findings, findingsFrom_cons, Finding.atLine?, OpenBlock.next?, ofLine?_startLine hname]
  have hstop : ∀ line, findingsFrom line (some ⟨name, 1, body⟩) [stopLine name] =
      [.block ⟨name, 1, line, body⟩] := by
    intro line
    simp [findingsFrom_cons, findingsFrom_nil, Finding.atLine?, OpenBlock.next?,
      ofLine?_stopLine hname, close, Finding.atEnd?]
  rw [hstart, findingsFrom_append h, List.nil_append, hstop]

end

/-! ## Code at another depth -/

/-- A line with `lead` in front, unless it is blank. -/
def inset (lead line : Text) : Text := if line.allBlank then line else lead ++ line

section
variable {lead line : Text}

theorem indented_nil_inset (hlead : lead.allBlank = true) (line : Text) :
    indented [] (inset lead line) = indented lead line := by
  rw [inset]
  split
  · next hblank => rw [indented, indented, if_pos hblank, if_pos hblank]
  · exact indented_nil_append hlead line

theorem ofLine?_inset (hlead : lead.allBlank = true) (line : Text) :
    Marker.ofLine? (inset lead line) = Marker.ofLine? line := by
  rw [inset]
  split
  · rfl
  · exact Marker.ofLine?_blanks_append hlead line

theorem newline_not_mem_inset (hlead : '\n' ∉ lead) (hline : '\n' ∉ line) : '\n' ∉ inset lead line := by
  rw [inset]
  split
  · exact hline
  · exact List.not_mem_append hlead hline

theorem getLast?_inset (lead line : Text) : (inset lead line).getLast? = line.getLast? := by
  rw [inset]
  split
  · rfl
  · next hnot =>
    have hne : line ≠ [] := by
      rintro rfl
      exact hnot rfl
    rw [List.getLast?_append_of_ne_nil _ hne]

end

/-! ## Wrapping and extracting -/

/-- The text of a start marker, the lines of the code with `lead` in front of those that are not blank,
and an end marker, which `last` may put a newline behind. -/
def wrapped (name lead code last : Text) : Text :=
  Text.ofLines (startLine name :: (Text.splitOn '\n' code).map (inset lead)) ++ (stopLine name ++ last)

section
variable {name lead code last : Text}

theorem lines_wrapped (hname : IsName name) (hlead : '\n' ∉ lead)
    (hreturn : ∀ line ∈ Text.splitOn '\n' code, line.getLast? ≠ some '\r')
    (hlast : last = [] ∨ last = ['\n']) :
    (wrapped name lead code last).lines =
      startLine name :: (Text.splitOn '\n' code).map (inset lead) ++ [stopLine name] := by
  have hbracket : some ']' ≠ some '\r' := by decide
  have hstop : Text.lines (stopLine name ++ last) = [stopLine name] := by
    have hline := newline_not_mem_stopLine hname
    rcases hlast with rfl | rfl
    · rw [List.append_nil]
      exact Text.lines_of_newline_not_mem (List.concat_ne_nil _ _) hline
    · exact Text.lines_cons_line hline (getLast?_stopLine name ▸ hbracket) []
  rw [wrapped, Text.lines_ofLines_append, hstop]
  · rw [List.forall_mem_cons, List.forall_mem_map]
    exact ⟨newline_not_mem_startLine hname, fun line hline =>
      newline_not_mem_inset hlead (Text.not_mem_of_mem_splitOn hline)⟩
  · rw [List.forall_mem_cons, List.forall_mem_map, getLast?_startLine]
    exact ⟨hbracket, fun line hline => getLast?_inset lead line ▸ hreturn line hline⟩

/-- Code that has no common indentation left and no marker in it is stored under its name as it is, from
between two markers and from any depth, when the name was free; and nothing else happens. -/
theorem addText_wrapped (x : Extractor) (path : Path) (hname : IsName name)
    (hlead : lead.all isIndent = true) (hcode : dedent (Text.splitOn '\n' code) = code)
    (hplain : ∀ line ∈ Text.splitOn '\n' code, ¬IsMarkerLine line)
    (hreturn : ∀ line ∈ Text.splitOn '\n' code, line.getLast? ≠ some '\r')
    (hlast : last = [] ∨ last = ['\n']) (hnew : x.snippets.get? name = none) :
    (x.addText path (wrapped name lead code last)).errors = x.errors ∧
    ∀ other, (x.addText path (wrapped name lead code last)).snippets.get? other =
      if other = name then some code else x.snippets.get? other := by
  have hblank := allBlank_of_isIndent hlead
  have hbody : ∀ line ∈ (Text.splitOn '\n' code).map (inset lead), ¬IsMarkerLine line := by
    rw [List.forall_mem_map]
    intro line hline
    rw [isMarkerLine_iff, ofLine?_inset hblank, ← isMarkerLine_iff]
    exact hplain line hline
  have hdedent : dedent ((Text.splitOn '\n' code).map (inset lead)) = code :=
    (dedent_map_of_indented hblank (indented_nil_inset hblank) _).trans hcode
  have hfree : ¬x.snippets.contains name = true := by
    rw [Dictionary.contains, hnew]
    exact Bool.false_ne_true
  rw [Extractor.addText, lines_wrapped hname (newline_not_mem_of_isIndent hlead) hreturn hlast,
    findings_between hname hbody, List.foldl_cons, List.foldl_nil]
  rw [Extractor.record, Extractor.store, if_neg hfree, hdedent]
  exact ⟨rfl, fun other => Dictionary.get?_insert ..⟩

end

def oddName : Text := " [a:b\r".toList

/-- Two depths, an empty line, a carriage return inside a line, and what is almost a marker. -/
def nestCode : Text := "if (x)\n\n  y();\rz\nw();  // [snippet:c]".toList

theorem addText_wrapped_nest :
    IsName oddName ∧ "\t ".toList.all isIndent = true ∧
    dedent (Text.splitOn '\n' nestCode) = nestCode ∧
    (∀ line ∈ Text.splitOn '\n' nestCode, ¬IsMarkerLine line) ∧
    (∀ line ∈ Text.splitOn '\n' nestCode, line.getLast? ≠ some '\r') ∧
    Extractor.fresh.snippets.get? oddName = none ∧
    (Extractor.fresh.addText ['p'] (wrapped oddName "\t ".toList nestCode [])).errors = [] ∧
    (Extractor.fresh.addText ['p'] (wrapped oddName "\t ".toList nestCode [])).snippets.get? oddName =
      some nestCode := by
  have hname : IsName oddName := ⟨by decide, by decide, by decide⟩
  have hlead : "\t ".toList.all isIndent = true := by decide
  have hcode : dedent (Text.splitOn '\n' nestCode) = nestCode := by decide +kernel
  have hplain : ∀ line ∈ Text.splitOn '\n' nestCode, ¬IsMarkerLine line := by decide +kernel
  have hreturn : ∀ line ∈ Text.splitOn '\n' nestCode, line.getLast? ≠ some '\r' := by decide +kernel
  have hnew : Extractor.fresh.snippets.get? oddName = none := rfl
  obtain ⟨herrors, hstored⟩ :=
    addText_wrapped Extractor.fresh ['p'] hname hlead hcode hplain hreturn (.inl rfl) hnew
  exact ⟨hname, hlead, hcode, hplain, hreturn, hnew, herrors, (hstored oddName).trans (if_pos rfl)⟩

end DocTools.Snippet
