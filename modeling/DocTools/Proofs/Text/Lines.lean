import DocTools.Text.Lines

/-! # Lines and newlines

A line run is a line with its newline, or the last line of a text without one; the lines themselves
have no newline. The main statements: `lineRuns_cons_line`, by which the first line comes off the front
of a text, `linewise`, the induction that goes with it, `lineRuns_append`, by which a text is cut where
a line ends, `lineRuns_ofLines` and `length_lineRuns_ofLines_iff` for texts that are put together from
lines, `lines_cons_line` and `lines_cons_line_return` for the two ways in which a line can end, and
`newline_not_mem_of_mem_lines`. -/
namespace DocTools.Text
set_option autoImplicit false

/-- The text of some lines, each with a newline after it. -/
def ofLines (lines : List Text) : Text := lines.flatMap (· ++ ['\n'])

theorem ofLines_cons (line : Text) (lines : List Text) :
    ofLines (line :: lines) = line ++ '\n' :: ofLines lines := List.append_assoc ..

theorem lineRuns_newline (rest : Text) : lineRuns ('\n' :: rest) = ['\n'] :: lineRuns rest := by
  rw [lineRuns, if_pos rfl]

theorem lineRuns_cons_of_ne {c : Char} {rest run : Text} {runs : List Text} (h : c ≠ '\n')
    (hr : lineRuns rest = run :: runs) : lineRuns (c :: rest) = (c :: run) :: runs := by
  rw [lineRuns, if_neg h, hr]

theorem lineRuns_cons_line {line : Text} (h : '\n' ∉ line) (rest : Text) :
    lineRuns (line ++ '\n' :: rest) = (line ++ ['\n']) :: lineRuns rest := by
  induction line with
  | nil => exact lineRuns_newline rest
  | cons c line ih =>
    rw [List.mem_cons, not_or] at h
    exact lineRuns_cons_of_ne (Ne.symm h.1) (ih h.2)

/-! ## Line by line -/

/-- A text is empty, a line without a newline, or a line with its newline and a text behind it. -/
@[elab_as_elim]
theorem linewise {motive : Text → Prop} (empty : motive [])
    (last : ∀ line, line ≠ [] → '\n' ∉ line → motive line)
    (line : ∀ line rest, '\n' ∉ line → motive rest → motive (line ++ '\n' :: rest)) (text : Text) :
    motive text := by
  by_cases hnewline : '\n' ∈ text
  · obtain ⟨first, rest, hsplit, hfirst⟩ := List.eq_append_cons_of_mem hnewline
    have hshorter : rest.length < text.length := by
      rw [hsplit, List.length_append, List.length_cons]
      omega
    exact hsplit ▸ line first rest hfirst (linewise empty last line rest)
  · by_cases hnil : text = []
    · exact hnil ▸ empty
    · exact last text hnil hnewline
termination_by text.length

theorem lineRuns_of_newline_not_mem {line : Text} (hne : line ≠ []) (h : '\n' ∉ line) :
    lineRuns line = [line] := by
  induction line with
  | nil => exact absurd rfl hne
  | cons c rest ih =>
    rw [List.mem_cons, not_or] at h
    cases rest with
    | nil => exact if_neg (Ne.symm h.1)
    | cons d rest => exact lineRuns_cons_of_ne (Ne.symm h.1) (ih (List.cons_ne_nil d rest) h.2)

/-! ## Texts made of lines -/

theorem lineRuns_ofLines {lines : List Text} (h : ∀ line ∈ lines, '\n' ∉ line) :
    lineRuns (ofLines lines) = lines.map (· ++ ['\n']) := by
  induction lines with
  | nil => rfl
  | cons line lines ih =>
    rw [List.forall_mem_cons] at h
    rw [ofLines_cons, lineRuns_cons_line h.1, ih h.2, List.map_cons]

/-- A text that the next line can be put behind: it is empty or ends with a newline. -/
def EndsLine (text : Text) : Prop := text = [] ∨ text.getLast? = some '\n'

instance (text : Text) : Decidable text.EndsLine := inferInstanceAs (Decidable (_ ∨ _))

/-- A text ends a line exactly if the text behind its first line does. -/
theorem endsLine_cons_line_iff {line rest : Text} : EndsLine (line ++ '\n' :: rest) ↔ EndsLine rest := by
  have hne : line ++ '\n' :: rest ≠ [] := List.append_ne_nil_of_right_ne_nil line (List.cons_ne_nil _ _)
  rw [EndsLine, EndsLine, or_iff_right hne, List.getLast?_append, List.getLast?_cons]
  cases hlast : rest.getLast? with
  | none => exact iff_of_true rfl (.inl (List.getLast?_eq_none_iff.mp hlast))
  | some c =>
    refine (or_iff_right ?_).symm
    rintro rfl
    cases hlast

theorem not_endsLine_of_newline_not_mem {line : Text} (hne : line ≠ []) (h : '\n' ∉ line) :
    ¬EndsLine line :=
  not_or.mpr ⟨hne, fun hlast => h (List.mem_of_getLast? hlast)⟩

theorem lineRuns_append {a : Text} (h : a.EndsLine) (b : Text) :
    lineRuns (a ++ b) = lineRuns a ++ lineRuns b := by
  induction a using linewise with
  | empty => rfl
  | last line hne hline => exact absurd h (not_endsLine_of_newline_not_mem hne hline)
  | line line rest hline ih =>
    rw [List.append_assoc, List.cons_append, lineRuns_cons_line hline, lineRuns_cons_line hline,
      ih (endsLine_cons_line_iff.mp h), List.cons_append]

theorem length_lineRuns {a : Text} (h : a.EndsLine) : (lineRuns a).length = a.newlines := by
  induction a using linewise with
  | empty => rfl
  | last line hne hline => exact absurd h (not_endsLine_of_newline_not_mem hne hline)
  | line line rest hline ih =>
    have hzero : line.count '\n' = 0 := List.count_eq_zero.mpr hline
    rw [lineRuns_cons_line hline, List.length_cons, ih (endsLine_cons_line_iff.mp h), newlines, newlines,
      List.count_append, List.count_cons_self, hzero, Nat.zero_add]

theorem endsLine_ofLines (lines : List Text) : (ofLines lines).EndsLine := by
  induction lines with
  | nil => exact .inl rfl
  | cons line lines ih =>
    rw [ofLines_cons]
    exact endsLine_cons_line_iff.mpr ih

theorem newlines_ofLines_cons (line : Text) (lines : List Text) :
    newlines (ofLines (line :: lines)) = newlines line + newlines (ofLines lines) + 1 := by
  rw [ofLines_cons, newlines, List.count_append, List.count_cons_self]
  rfl

theorem length_le_newlines_ofLines (lines : List Text) : lines.length ≤ newlines (ofLines lines) := by
  induction lines with
  | nil => exact Nat.le_refl 0
  | cons line lines ih =>
    rw [newlines_ofLines_cons, List.length_cons]
    omega

/-- The text of some lines has as many lines again exactly if none of them is broken. -/
theorem length_lineRuns_ofLines_iff {lines : List Text} :
    (lineRuns (ofLines lines)).length = lines.length ↔ ∀ line ∈ lines, '\n' ∉ line := by
  rw [length_lineRuns (endsLine_ofLines lines)]
  induction lines with
  | nil => simp [ofLines, newlines]
  | cons line lines ih =>
    have hzero : newlines line = 0 ↔ '\n' ∉ line := List.count_eq_zero
    have hle := length_le_newlines_ofLines lines
    rw [newlines_ofLines_cons, List.length_cons, List.forall_mem_cons, ← ih, ← hzero]
    omega

theorem line_of_mem_lineRuns {text run : Text} (h : run ∈ lineRuns text) :
    ∃ line : Text, '\n' ∉ line ∧ (run = line ∨ run = line ++ ['\n']) := by
  induction text using linewise with
  | empty => cases h
  | last line hne hline =>
    rw [lineRuns_of_newline_not_mem hne hline] at h
    exact ⟨line, hline, .inl (List.mem_singleton.mp h)⟩
  | line line rest hline ih =>
    rw [lineRuns_cons_line hline] at h
    rcases List.mem_cons.mp h with rfl | h
    · exact ⟨line, hline, .inr rfl⟩
    · exact ih h

theorem newline_not_mem_of_append_mem_lineRuns {text front behind : Text}
    (h : front ++ behind ∈ lineRuns text) (hbehind : behind ≠ []) : '\n' ∉ front := by
  obtain ⟨line, hline, hrun⟩ := line_of_mem_lineRuns h
  have hlead : front <+: line := by
    rcases hrun with hrun | hrun
    · exact ⟨behind, hrun⟩
    · have hlength := congrArg List.length hrun
      simp only [List.length_append, List.length_singleton] at hlength
      have hpos := List.length_pos_iff.mpr hbehind
      exact List.prefix_of_prefix_length_le (hrun ▸ List.prefix_append front behind)
        (List.prefix_append line ['\n']) (by omega)
  exact fun hc => hline (hlead.subset hc)

/-! ## Lines without their ends -/

/-- Only the last two characters can be an end. -/
theorem chomp_append_pair (front : Text) (c d : Char) :
    chomp (front ++ [c, d]) = front ++ chomp [c, d] := by
  induction front with
  | nil => rfl
  | cons a front ih =>
    rw [List.cons_append, chomp, ih, List.cons_append]
    · simp
    · simp [List.append_eq_cons_iff]

theorem chomp_of_newline_not_mem {line : Text} (h : '\n' ∉ line) : chomp line = line := by
  induction line with
  | nil => rfl
  | cons c rest ih =>
    rw [List.mem_cons, not_or] at h
    rw [chomp, ih h.2]
    · exact fun hc _ => h.1 hc.symm
    · rintro - rfl
      exact h.2 (List.mem_singleton_self _)

theorem chomp_append_newline {line : Text} (h : line.getLast? ≠ some '\r') :
    chomp (line ++ ['\n']) = line := by
  rcases List.eq_nil_or_concat line with rfl | ⟨front, c, rfl⟩
  · rfl
  · have hc : c ≠ '\r' := by simpa using h
    have hpair : chomp [c, '\n'] = [c] := by
      rw [chomp]
      · rfl
      · simp
      · exact fun hc' => absurd hc' hc
    rw [List.concat_eq_append, List.append_assoc, List.singleton_append, chomp_append_pair, hpair]

theorem chomp_append_return (line : Text) : chomp (line ++ ['\r', '\n']) = line := by
  rw [chomp_append_pair]
  exact List.append_nil line

theorem lines_of_newline_not_mem {line : Text} (hne : line ≠ []) (h : '\n' ∉ line) :
    lines line = [line] := by
  rw [lines, lineRuns_of_newline_not_mem hne h, List.map_singleton, chomp_of_newline_not_mem h]

theorem lines_cons_line {line : Text} (h : '\n' ∉ line) (hreturn : line.getLast? ≠ some '\r')
    (rest : Text) : lines (line ++ '\n' :: rest) = line :: lines rest := by
  rw [lines, lineRuns_cons_line h, List.map_cons, chomp_append_newline hreturn]
  rfl

theorem lines_cons_line_return {line : Text} (h : '\n' ∉ line) (rest : Text) :
    lines (line ++ '\r' :: '\n' :: rest) = line :: lines rest := by
  have hline : '\n' ∉ line ++ ['\r'] := List.not_mem_append h (by decide)
  have hruns := lineRuns_cons_line hline rest
  rw [List.append_assoc, List.append_assoc] at hruns
  rw [lines]
  refine (congrArg (List.map chomp) hruns).trans ?_
  rw [List.map_cons]
  exact congrArg (· :: lines rest) (chomp_append_return line)

theorem lines_ofLines_append {all : List Text} (h : ∀ line ∈ all, '\n' ∉ line)
    (hreturn : ∀ line ∈ all, line.getLast? ≠ some '\r') (rest : Text) :
    lines (ofLines all ++ rest) = all ++ lines rest := by
  induction all with
  | nil => rfl
  | cons line all ih =>
    rw [List.forall_mem_cons] at h hreturn
    rw [ofLines_cons, List.append_assoc, List.cons_append, lines_cons_line h.1 hreturn.1,
      ih h.2 hreturn.2, List.cons_append]

theorem newline_not_mem_chomp {line : Text} (h : '\n' ∉ line) :
    '\n' ∉ chomp line ∧ '\n' ∉ chomp (line ++ ['\n']) := by
  constructor
  · rwa [chomp_of_newline_not_mem h]
  · by_cases hreturn : line.getLast? = some '\r'
    · obtain ⟨front, rfl⟩ := List.getLast?_eq_some_iff.mp hreturn
      rw [List.append_assoc, List.singleton_append, chomp_append_return]
      exact fun hc => h (List.mem_append_left _ hc)
    · rwa [chomp_append_newline hreturn]

theorem newline_not_mem_of_mem_lines {text line : Text} (h : line ∈ lines text) : '\n' ∉ line := by
  obtain ⟨run, hrun, rfl⟩ := List.mem_map.mp h
  obtain ⟨front, hfront, rfl | rfl⟩ := line_of_mem_lineRuns hrun
  · exact (newline_not_mem_chomp hfront).1
  · exact (newline_not_mem_chomp hfront).2

end DocTools.Text
