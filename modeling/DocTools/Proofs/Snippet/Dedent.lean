import DocTools.Proofs.Path.Names
import DocTools.Snippet.Dedent
import Mathlib.Data.List.Forall2

/-! # Indenting and taking the indentation off again

Lines can be put under one more indentation. `Deeper` says so of one line and leaves open which blanks
are put in front of it, and how a blank line is written. The main statements: `dedent_of_deeper`, by
which this has no influence on what is left when the common indentation is taken off, its case
`dedent_map_of_indented` for lines that are changed one by one, and `dedent_splitOn_dedent`, by which
nothing can be taken off a second time. -/
namespace DocTools.Snippet
set_option autoImplicit false

/-- A line under an indentation; a blank line has none. -/
def indented (indent line : Text) : Text := if line.allBlank then [] else indent ++ line

variable {lines : List Text} {indent line : Text} {k : Nat}

/-! ## The indentation of one line -/

theorem indentation_append (h : indent.allBlank = true) :
    (indent ++ line).indentation = indent.length + line.indentation := by
  rw [Text.indentation, List.takeWhile_append_of_pos (List.all_eq_true.mp h), List.length_append]
  rfl

theorem allBlank_take (h : k ≤ line.indentation) : Text.allBlank (line.take k) = true := by
  have hfront : line.take k <+: line.takeWhile isBlank := by
    refine List.prefix_of_prefix_length_le (List.take_prefix k line) (List.takeWhile_prefix _) ?_
    exact Nat.le_trans (List.length_take_le k line) h
  rw [Text.allBlank, List.all_eq_true]
  exact fun c hc => List.all_eq_true.mp List.all_takeWhile c (hfront.subset hc)

theorem allBlank_drop (h : k ≤ line.indentation) :
    Text.allBlank (line.drop k) = line.allBlank := by
  have hsplit : line.allBlank = (Text.allBlank (line.take k) && Text.allBlank (line.drop k)) := by
    rw [Text.allBlank, Text.allBlank, Text.allBlank, ← List.all_append, List.take_append_drop]
  rw [hsplit, allBlank_take h, Bool.true_and]

/-- A line without all of its indentation starts with its first character that is no blank. -/
theorem exists_head?_drop_indentation (h : line.allBlank = false) :
    ∃ c, (line.drop line.indentation).head? = some c ∧ isBlank c = false := by
  have hstart : line.drop line.indentation = line.trimStart := by
    have hsplit := congrArg (List.drop line.indentation) (Text.takeWhile_append_trimStart line)
    rw [← hsplit]
    exact List.drop_left
  have hne : line.trimStart ≠ [] := fun hnil =>
    Bool.false_ne_true (h.symm.trans (Text.trimStart_eq_nil_iff.mp hnil))
  obtain ⟨c, rest, hc⟩ := List.exists_cons_of_ne_nil hne
  refine ⟨c, by rw [hstart, hc]; rfl, ?_⟩
  have hhead := List.head?_dropWhile_not isBlank line
  rw [show line.dropWhile isBlank = c :: rest from hc] at hhead
  simpa using hhead

theorem allBlank_indented (indent line : Text) :
    (indented indent line).allBlank = line.allBlank := by
  cases h : line.allBlank with
  | true => rw [indented, if_pos h]; rfl
  | false =>
    rw [indented, if_neg (Bool.eq_false_iff.mp h), Text.allBlank, List.all_append]
    exact (congrArg _ h).trans (Bool.and_false _)

theorem allBlank_blanks_append (h : indent.allBlank = true) (line : Text) :
    Text.allBlank (indent ++ line) = line.allBlank := by
  rw [Text.allBlank, List.all_append]
  exact (congrArg (· && line.allBlank) h).trans (Bool.true_and _)

/-- Of the blanks in front of a line those are left out that make up a blank line. -/
theorem indented_nil_append (h : indent.allBlank = true) (line : Text) :
    indented [] (indent ++ line) = indented indent line := by
  rw [indented, indented, allBlank_blanks_append h]
  rfl

theorem newline_not_mem_indented (hindent : '\n' ∉ indent) (hline : '\n' ∉ line) :
    '\n' ∉ indented indent line := by
  rw [indented]
  split
  · exact List.not_mem_nil
  · exact List.not_mem_append hindent hline

/-! ## The common indentation -/

theorem commonIndent?_eq_none_iff :
    commonIndent? lines = none ↔ ∀ line ∈ lines, line.allBlank = true := by
  rw [commonIndent?, List.min?_eq_none_iff, List.map_eq_nil_iff, List.filter_eq_nil_iff]
  simp

theorem commonIndent?_eq_some_iff : commonIndent? lines = some k ↔
    (∃ line ∈ lines, line.allBlank = false ∧ line.indentation = k) ∧
      ∀ line ∈ lines, line.allBlank = false → k ≤ line.indentation := by
  have hmem : ∀ n, n ∈ (lines.filter fun line => !line.allBlank).map Text.indentation ↔
      ∃ line ∈ lines, line.allBlank = false ∧ line.indentation = n := by
    intro n
    simp [and_assoc]
  rw [commonIndent?, List.min?_eq_some_iff, hmem]
  refine and_congr_right fun _ => ⟨fun h line hline hnot => ?_, fun h n hn => ?_⟩
  · exact h _ ((hmem _).mpr ⟨line, hline, hnot, rfl⟩)
  · obtain ⟨line, hline, hnot, rfl⟩ := (hmem n).mp hn
    exact h line hline hnot

theorem commonIndent?_cons (line : Text) (lines : List Text) :
    commonIndent? (line :: lines) =
      if line.allBlank then commonIndent? lines
      else some ((commonIndent? lines).elim line.indentation (min line.indentation)) := by
  rw [commonIndent?, List.filter_cons]
  cases h : line.allBlank with
  | true => rfl
  | false =>
    simp only [Bool.not_false, if_true, List.map_cons, List.min?_cons]
    rfl

/-! ## Lines at another depth -/

/-- A line and the same line with `width` blanks in front. Of two blank lines each is the other one at
any depth. -/
inductive Deeper (width : Nat) : Text → Text → Prop
  | blank {line deeper : Text} (hline : line.allBlank = true) (hdeeper : deeper.allBlank = true) :
    Deeper width line deeper
  | indented {indent line : Text} (hindent : indent.allBlank = true) (hwidth : indent.length = width)
    (hline : line.allBlank = false) : Deeper width line (indent ++ line)

section
variable {width : Nat} {deeper : Text}

theorem Deeper.allBlank_eq (h : Deeper width line deeper) : deeper.allBlank = line.allBlank := by
  cases h with
  | blank hline hdeeper => rw [hline, hdeeper]
  | indented hindent _ _ => exact allBlank_blanks_append hindent line

theorem Deeper.indentation_eq (h : Deeper width line deeper) (hnot : line.allBlank = false) :
    deeper.indentation = width + line.indentation := by
  cases h with
  | blank hline _ => exact absurd (hnot.symm.trans hline) Bool.false_ne_true
  | indented hindent hwidth _ => rw [indentation_append hindent, hwidth]

theorem Deeper.dropIndent_eq (h : Deeper width line deeper) (k : Nat) :
    dropIndent (width + k) deeper = dropIndent k line := by
  rw [dropIndent, h.allBlank_eq, dropIndent]
  cases h with
  | blank hline _ => rw [if_pos hline, if_pos hline]
  | indented _ hwidth hline =>
    rw [if_neg (Bool.eq_false_iff.mp hline), if_neg (Bool.eq_false_iff.mp hline), ← hwidth,
      List.drop_length_add_append]

theorem deeper_indented (h : indent.allBlank = true) (line : Text) :
    Deeper indent.length line (indented indent line) := by
  rw [indented]
  split
  · next hblank => exact .blank hblank rfl
  · next hnot => exact .indented h rfl (Bool.eq_false_iff.mpr hnot)

/-- A line is deeper than what is left of it by what is taken off. -/
theorem deeper_dropIndent (h : line.allBlank = false → k ≤ line.indentation) :
    Deeper k (dropIndent k line) line := by
  rw [dropIndent]
  split
  · next hblank => exact .blank rfl hblank
  · next hnot =>
    have hle := h (Bool.eq_false_iff.mpr hnot)
    have hlength : (line.take k).length = k :=
      List.length_take_of_le (Nat.le_trans hle (List.takeWhile_prefix isBlank).length_le)
    have hrest : Text.allBlank (line.drop k) = false := by
      rw [allBlank_drop hle]
      exact Bool.eq_false_iff.mpr hnot
    have hdeeper := Deeper.indented (allBlank_take hle) hlength hrest
    rwa [List.take_append_drop] at hdeeper

end

section
variable {width : Nat} {deeper : List Text}

theorem commonIndent?_of_deeper (h : List.Forall₂ (Deeper width) lines deeper) :
    commonIndent? deeper = (commonIndent? lines).map (width + ·) := by
  induction h with
  | nil => rfl
  | @cons line _ lines _ hline _ ih =>
    rw [commonIndent?_cons, commonIndent?_cons, hline.allBlank_eq, ih]
    split
    · rfl
    · next hnot =>
      rw [hline.indentation_eq (Bool.eq_false_iff.mpr hnot)]
      cases commonIndent? lines with
      | none => rfl
      | some k => exact congrArg some (Nat.add_min_add_left width line.indentation k)

theorem map_dropIndent_of_deeper (h : List.Forall₂ (Deeper width) lines deeper) (k : Nat) :
    deeper.map (dropIndent (width + k)) = lines.map (dropIndent k) := by
  induction h with
  | nil => rfl
  | cons hline _ ih => rw [List.map_cons, List.map_cons, hline.dropIndent_eq, ih]

/-- What is left of some lines is left of them at any other depth. The blanks in front need not be the
same for all lines, as long as they are equally many. -/
theorem dedent_of_deeper (h : List.Forall₂ (Deeper width) lines deeper) :
    dedent deeper = dedent lines := by
  rw [dedent, dedent, commonIndent?_of_deeper h]
  cases commonIndent? lines with
  | none => rfl
  | some k => exact congrArg (Text.join ['\n']) (map_dropIndent_of_deeper h k)

end

theorem dedent_map_indented (h : indent.allBlank = true) (lines : List Text) :
    dedent (lines.map (indented indent)) = dedent lines :=
  dedent_of_deeper (List.forall₂_map_right_iff.mpr
    (List.forall₂_same.mpr fun line _ => deeper_indented h line))

/-- How blank lines are written has no influence either, so it is enough that the lines are indented as
far as they are not blank. -/
theorem dedent_map_of_indented {g : Text → Text} (hindent : indent.allBlank = true)
    (hg : ∀ line, indented [] (g line) = indented indent line) (lines : List Text) :
    dedent (lines.map g) = dedent lines := by
  calc dedent (lines.map g) = dedent ((lines.map g).map (indented [])) :=
        (dedent_map_indented rfl (lines.map g)).symm
    _ = dedent (lines.map (indented indent)) := by
        rw [List.map_map]
        exact congrArg dedent (List.map_congr_left fun line _ => hg line)
    _ = dedent lines := dedent_map_indented hindent lines

/-! ## Lines without common indentation -/

theorem dedent_eq_nil (h : commonIndent? lines = none) : dedent lines = [] := by
  rw [dedent, h]

theorem dedent_eq_join (h : commonIndent? lines = some k) :
    dedent lines = Text.join ['\n'] (lines.map (dropIndent k)) := by
  rw [dedent, h]

theorem newline_not_mem_dropIndent (h : '\n' ∉ line) : '\n' ∉ dropIndent k line := by
  rw [dropIndent]
  split
  · exact List.not_mem_nil
  · exact fun hc => h (List.mem_of_mem_drop hc)

theorem splitOn_dedent (h : commonIndent? lines = some k) (hlines : ∀ line ∈ lines, '\n' ∉ line) :
    Text.splitOn '\n' (dedent lines) = lines.map (dropIndent k) := by
  obtain ⟨⟨line, hline, -⟩, -⟩ := commonIndent?_eq_some_iff.mp h
  rw [dedent_eq_join h]
  refine Text.splitOn_join (List.ne_nil_of_mem (List.mem_map_of_mem hline)) ?_
  exact List.forall_mem_map.mpr fun line hline => newline_not_mem_dropIndent (hlines line hline)

/-- Lines are all deeper by their common indentation than what is left of them. -/
theorem deeper_map_dropIndent (h : commonIndent? lines = some k) :
    List.Forall₂ (Deeper k) (lines.map (dropIndent k)) lines := by
  have hall := (commonIndent?_eq_some_iff.mp h).2
  exact List.forall₂_map_left_iff.mpr
    (List.forall₂_same.mpr fun line hline => deeper_dropIndent (hall line hline))

theorem dedent_splitOn_dedent (hlines : ∀ line ∈ lines, '\n' ∉ line) :
    dedent (Text.splitOn '\n' (dedent lines)) = dedent lines := by
  cases h : commonIndent? lines with
  | none =>
    rw [dedent_eq_nil h]
    rfl
  | some k =>
    rw [splitOn_dedent h hlines]
    exact (dedent_of_deeper (deeper_map_dropIndent h)).symm

end DocTools.Snippet
