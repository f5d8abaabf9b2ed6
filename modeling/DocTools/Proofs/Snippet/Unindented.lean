import DocTools.Proofs.Snippet.Dedent

/-! # What is left without the common indentation

How many blanks are taken off some lines, and what is left of each line, can be said without counting:
the lines are what is left of them, at another depth, and what is left is at no depth itself. The main
statements: `unindented_iff`, by which that leaves no choice, and `dedent_unindents_uniquely`, which says
what `dedent` gives for any lines at all, and what it is independent of. -/
namespace DocTools.Snippet
set_option autoImplicit false

/-- What is left of some lines without `k` blanks in front of each: with them it is the lines again,
nothing is left of blank lines, and at least one of the others then starts with a character that is no
blank. -/
structure Unindented (k : Nat) (lines left : List Text) : Prop where
  deeper : List.Forall₂ (Deeper k) left lines
  eq_nil_of_allBlank : ∀ line ∈ left, line.allBlank = true → line = []
  starts : ∃ line ∈ left, ∃ c, line.head? = some c ∧ isBlank c = false

section
variable {lines left : List Text} {line : Text} {k : Nat}

/-! ## Lines at no depth -/

theorem not_indented_of_head? {c : Char} (hhead : line.head? = some c) (hc : isBlank c = false) :
    line.allBlank = false ∧ line.indentation = 0 := by
  obtain ⟨rest, rfl⟩ := List.head?_eq_some_iff.mp hhead
  constructor
  · rw [Text.allBlank, List.all_cons, hc, Bool.false_and]
  · rw [Text.indentation, List.takeWhile_cons_of_neg (Bool.eq_false_iff.mp hc), List.length_nil]

theorem Unindented.commonIndent?_left (h : Unindented k lines left) : commonIndent? left = some 0 := by
  obtain ⟨line, hline, c, hhead, hc⟩ := h.starts
  obtain ⟨hnot, hzero⟩ := not_indented_of_head? hhead hc
  exact commonIndent?_eq_some_iff.mpr ⟨⟨line, hline, hnot, hzero⟩, fun _ _ _ => Nat.zero_le _⟩

theorem Unindented.map_dropIndent_zero (h : Unindented k lines left) :
    left.map (dropIndent 0) = left := by
  have hsame : ∀ line ∈ left, dropIndent 0 line = line := by
    intro line hline
    rw [dropIndent]
    split
    · next hblank => exact (h.eq_nil_of_allBlank line hline hblank).symm
    · exact List.drop_zero
  exact (List.map_congr_left hsame).trans (List.map_id left)

/-! ## How much is taken off, and what is left -/

/-- The depth of the lines is `k` and that of what is left, which is none. -/
theorem Unindented.commonIndent?_eq (h : Unindented k lines left) : commonIndent? lines = some k := by
  rw [commonIndent?_of_deeper h.deeper, h.commonIndent?_left]
  rfl

theorem Unindented.eq_map (h : Unindented k lines left) : left = lines.map (dropIndent k) :=
  calc left = left.map (dropIndent 0) := h.map_dropIndent_zero.symm
    _ = lines.map (dropIndent k) := (map_dropIndent_of_deeper h.deeper 0).symm

theorem unindented_map_dropIndent (h : commonIndent? lines = some k) :
    Unindented k lines (lines.map (dropIndent k)) where
  deeper := deeper_map_dropIndent h
  eq_nil_of_allBlank := by
    have hall := (commonIndent?_eq_some_iff.mp h).2
    refine List.forall_mem_map.mpr fun line hline hblank => ?_
    rw [← (deeper_dropIndent (hall line hline)).allBlank_eq] at hblank
    rw [dropIndent, if_pos hblank]
  starts := by
    -- the line with the least indentation is left without any
    obtain ⟨⟨line, hline, hnot, rfl⟩, -⟩ := commonIndent?_eq_some_iff.mp h
    obtain ⟨c, hhead, hc⟩ := exists_head?_drop_indentation hnot
    refine ⟨dropIndent line.indentation line, List.mem_map_of_mem hline, c, ?_, hc⟩
    rw [dropIndent, if_neg (Bool.eq_false_iff.mp hnot)]
    exact hhead

/-- There is one number of blanks to take off at most, and one way of doing it. -/
theorem unindented_iff :
    Unindented k lines left ↔ commonIndent? lines = some k ∧ left = lines.map (dropIndent k) := by
  constructor
  · exact fun h => ⟨h.commonIndent?_eq, h.eq_map⟩
  · rintro ⟨h, rfl⟩
    exact unindented_map_dropIndent h

theorem existsUnique_unindented (h : ∃ line ∈ lines, line.allBlank = false) :
    ∃! k, ∃ left, Unindented k lines left ∧ dedent lines = Text.join ['\n'] left := by
  cases hcommon : commonIndent? lines with
  | none =>
    obtain ⟨line, hline, hnot⟩ := h
    exact absurd (hnot.symm.trans (commonIndent?_eq_none_iff.mp hcommon line hline)) Bool.false_ne_true
  | some k =>
    refine ⟨k, ⟨_, unindented_iff.mpr ⟨hcommon, rfl⟩, dedent_eq_join hcommon⟩, ?_⟩
    rintro n ⟨left, hleft, -⟩
    exact Option.some.inj ((unindented_iff.mp hleft).1.symm.trans hcommon)

end

/-! ## What is given for any lines -/

/-- Nothing is left of blank lines. Of any others one number of blanks is taken off, whatever the blanks
are, as they are counted and not compared. It makes no difference to what is left whether it is taken
off a second time, at what depth the lines are, or how blank lines are written. -/
theorem dedent_unindents_uniquely (lines : List Text) :
    ((∀ line ∈ lines, line.allBlank = true) → dedent lines = []) ∧
    ((∃ line ∈ lines, line.allBlank = false) →
      ∃! k, ∃ left, Unindented k lines left ∧ dedent lines = Text.join ['\n'] left) ∧
    ((∀ line ∈ lines, '\n' ∉ line) → dedent (Text.splitOn '\n' (dedent lines)) = dedent lines) ∧
    ∀ (width : Nat) (deeper : List Text), List.Forall₂ (Deeper width) lines deeper →
      dedent deeper = dedent lines :=
  ⟨fun hblank => dedent_eq_nil (commonIndent?_eq_none_iff.mpr hblank), existsUnique_unindented,
    dedent_splitOn_dedent, fun _ _ hdeeper => dedent_of_deeper hdeeper⟩

/-- Lines with as many blanks in front, which take up different numbers of bytes, and blank lines that
are shorter and longer than that. -/
def awning : List Text :=
  ["\t\u3000f();", "\u2009", "\u00a0\t\tg();", " \t\u2003 ", ""].map String.toList

/-- The same under one more blank each, with other blank lines. -/
def loweredAwning : List Text :=
  ["\u2028\t\u3000f();", "", " \u00a0\t\tg();", "\t", "  "].map String.toList

theorem dedent_unindents_uniquely_awning :
    (∃ line ∈ awning, line.allBlank = false) ∧ (∀ line ∈ awning, '\n' ∉ line) ∧
    List.Forall₂ (Deeper 1) awning loweredAwning ∧
    (∃! k, ∃ left, Unindented k awning left ∧ dedent awning = Text.join ['\n'] left) ∧
    dedent (Text.splitOn '\n' (dedent awning)) = dedent awning ∧
    dedent loweredAwning = dedent awning ∧
    commonIndent? awning = some 2 ∧ dedent awning = "f();\n\n\tg();\n\n".toList ∧
    dedent (awning.filter Text.allBlank) = [] := by
  have hsome : ∃ line ∈ awning, line.allBlank = false := by decide
  have hlines : ∀ line ∈ awning, '\n' ∉ line := by decide
  have hblank : ∀ line ∈ awning.filter Text.allBlank, line.allBlank = true := by decide
  have hdeeper : List.Forall₂ (Deeper 1) awning loweredAwning :=
    .cons (@Deeper.indented 1 ['\u2028'] _ rfl rfl rfl) <| .cons (.blank rfl rfl) <|
      .cons (@Deeper.indented 1 [' '] _ rfl rfl rfl) <| .cons (.blank rfl rfl) <|
      .cons (.blank rfl rfl) .nil
  obtain ⟨-, hunique, hagain, hdepth⟩ := dedent_unindents_uniquely awning
  exact ⟨hsome, hlines, hdeeper, hunique hsome, hagain hlines, hdepth 1 loweredAwning hdeeper,
    by decide, by decide, (dedent_unindents_uniquely (awning.filter Text.allBlank)).1 hblank⟩

end DocTools.Snippet
