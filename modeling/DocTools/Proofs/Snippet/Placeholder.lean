import DocTools.Proofs.Path.Names
import DocTools.Proofs.Snippet.Marker
import DocTools.Proofs.Text.Trim
import DocTools.Snippet.Placeholder

/-! # How a placeholder is spelled

A placeholder line is an indentation, `<!--`, blanks, `snippet:`, a name, a colon, the other fields,
`-->` and blanks. The main statement, `ofLine?_eq_some_iff`, says that reading a line finds exactly the
placeholders spelled this way; from it come what a name can be (`name_of_ofLine?`) and a line for every
such name (`ofLine?_plainLine`). -/
namespace DocTools.Snippet.Placeholder
set_option autoImplicit false

/-! ## The spelling -/

/-- A line with a name and the fields after it as they are written, before they are trimmed. -/
structure Spelled (line indent name fields : Text) : Prop where
  indent_all : indent.all isIndent = true
  name_ne_nil : name ≠ []
  colon_not_mem : ':' ∉ name
  line_eq : ∃ between behind : Text, between.allBlank = true ∧ behind.allBlank = true ∧
    line = indent ++ commentOpen ++ between ++ placeholderKey ++ name ++ ':' :: fields ++
      commentClose ++ behind

theorem beforeClose?_eq_some_iff {text body : Text} :
    beforeClose? text = some body ↔
      ∃ behind : Text, behind.allBlank = true ∧ text = body ++ commentClose ++ behind := by
  have hclose : ∀ front : Text, (front ++ commentClose).trimEnd = front ++ commentClose := by
    intro front
    show Text.trimEnd (front ++ (['-', '-'] ++ ['>'])) = front ++ (['-', '-'] ++ ['>'])
    rw [← List.append_assoc]
    exact Text.trimEnd_concat _ (by decide)
  rw [beforeClose?, Option.map_eq_some_iff]
  constructor
  · rintro ⟨rest, hrest, rfl⟩
    have hend := congrArg List.reverse (Text.after?_eq_some_iff.mp hrest)
    rw [List.reverse_reverse, List.reverse_append, List.reverse_reverse] at hend
    obtain ⟨behind, hbehind, htext⟩ := Text.exists_trimEnd_append text
    exact ⟨behind, hbehind, by rw [← hend, ← htext]⟩
  · rintro ⟨behind, hbehind, rfl⟩
    refine ⟨body.reverse, ?_, List.reverse_reverse body⟩
    rw [Text.trimEnd_append_blanks _ hbehind, hclose, List.reverse_append, Text.after?_append]

theorem fields?_of_colon_not_mem {text : Text} (hne : text ≠ []) (h : ':' ∉ text) :
    fields? text = some (text, none) := by
  rw [fields?, Text.splitOn_of_not_mem h]
  exact if_neg hne

theorem takeWhile_isIndent_append {indent : Text} (h : indent.all isIndent = true) (rest : Text) :
    (indent ++ (commentOpen ++ rest)).takeWhile isIndent = indent := by
  rw [List.takeWhile_append_of_pos (List.all_eq_true.mp h)]
  exact List.append_nil indent

theorem dropWhile_isIndent_append {indent : Text} (h : indent.all isIndent = true) (rest : Text) :
    (indent ++ (commentOpen ++ rest)).dropWhile isIndent = commentOpen ++ rest := by
  rw [List.dropWhile_append_of_pos (List.all_eq_true.mp h)]
  rfl

/-- The front of a placeholder is read off a line whatever stands behind the name. -/
theorem ofLine?_append {indent between name : Text} (hindent : indent.all isIndent = true)
    (hbetween : between.allBlank = true) (hname : name ≠ []) (hcolon : ':' ∉ name) (behind : Text) :
    ofLine? (indent ++ (commentOpen ++ (between ++ (placeholderKey ++ (name ++ ':' :: behind))))) =
      ((beforeClose? behind).bind fields?).map fun p =>
        ⟨indent, name.trim, p.1.trim, p.2.map Text.trim⟩ := by
  have hkey : Text.trimStart (between ++ (placeholderKey ++ (name ++ ':' :: behind))) =
      placeholderKey ++ (name ++ ':' :: behind) := trimStart_append hbetween (by decide)
  rw [ofLine?, takeWhile_isIndent_append hindent, dropWhile_isIndent_append hindent]
  simp only [Text.after?_append, Option.bind_eq_bind, Option.bind_some, hkey,
    Text.breakAt?_eq_some_iff.mpr ⟨rfl, hcolon⟩, if_neg hname]
  cases beforeClose? behind with
  | none => rfl
  | some fields =>
    cases hfields : fields? fields with
    | none => simp [hfields]
    | some p => simp [hfields]

theorem ofLine?_eq_some_iff {line : Text} {p : Placeholder} :
    ofLine? line = some p ↔ ∃ name fields language attributes,
      Spelled line p.indent name fields ∧ fields? fields = some (language, attributes) ∧
        p = ⟨p.indent, name.trim, language.trim, attributes.map Text.trim⟩ := by
  constructor
  · intro h
    unfold ofLine? at h
    simp only [Option.bind_eq_bind, Option.bind_eq_some_iff] at h
    obtain ⟨rest, hopen, body, hkey, ⟨name, behind⟩, hname, h⟩ := h
    obtain ⟨htext, hcolon⟩ := Text.breakAt?_eq_some_iff.mp hname
    by_cases hne : name = []
    · rw [if_pos hne] at h
      cases h
    · rw [if_neg hne] at h
      simp only [Option.bind_eq_some_iff] at h
      obtain ⟨fields, hclose, ⟨language, attributes⟩, hfields, hp⟩ := h
      cases hp
      obtain ⟨blanks, hblanks, rfl⟩ := beforeClose?_eq_some_iff.mp hclose
      obtain ⟨between, hbetween, rfl⟩ :=
        (trimStart_eq_iff (by decide)).mp (Text.after?_eq_some_iff.mp hkey)
      refine ⟨name, fields, language, attributes, ?_, hfields, rfl⟩
      refine ⟨List.all_takeWhile, hne, hcolon, between, blanks, hbetween, hblanks, ?_⟩
      calc line = line.takeWhile isIndent ++ line.dropWhile isIndent :=
            List.takeWhile_append_dropWhile.symm
        _ = _ := by
            rw [Text.after?_eq_some_iff.mp hopen, htext]
            simp only [List.append_assoc, List.cons_append]
            rfl
  · rintro ⟨name, fields, language, attributes, h, hfields, hp⟩
    obtain ⟨between, behind, hbetween, hbehind, rfl⟩ := h.line_eq
    have hclose : beforeClose? (fields ++ commentClose ++ behind) = some fields :=
      beforeClose?_eq_some_iff.mpr ⟨behind, hbehind, rfl⟩
    have hread := ofLine?_append h.indent_all hbetween h.name_ne_nil h.colon_not_mem
      (fields ++ commentClose ++ behind)
    rw [hclose, Option.bind_some, hfields, Option.map_some, ← hp] at hread
    simpa only [List.append_assoc, List.cons_append] using hread

/-! ## Names -/

/-- The name of a placeholder holds no colon and has no blank at either end. -/
theorem name_of_ofLine? {line : Text} {p : Placeholder} (h : ofLine? line = some p) :
    ':' ∉ p.name ∧ p.name.IsTrimmed := by
  obtain ⟨name, fields, language, attributes, hline, -, hp⟩ := ofLine?_eq_some_iff.mp h
  rw [hp]
  exact ⟨fun hc => hline.colon_not_mem (Text.mem_of_mem_trim hc), Text.isTrimmed_trim name⟩

/-- The line of a placeholder without attributes and without its newline. -/
def plainLine (indent name language : Text) : Text :=
  indent ++ "<!-- snippet:".toList ++ name ++ ':' :: language ++ " -->".toList

theorem ofLine?_plainLine {indent name language : Text} (hindent : indent.all isIndent = true)
    (hname : name ≠ []) (hcolon : ':' ∉ name) (hlanguage : ':' ∉ language) :
    ofLine? (plainLine indent name language ++ ['\n']) =
      some ⟨indent, name.trim, language.trim, none⟩ := by
  have hfields : fields? (language ++ [' ']) = some (language ++ [' '], none) := by
    refine fields?_of_colon_not_mem (List.concat_ne_nil _ _) ?_
    rw [List.mem_append, not_or]
    exact ⟨hlanguage, by decide⟩
  rw [ofLine?_eq_some_iff]
  refine ⟨name, language ++ [' '], language ++ [' '], none, ?_, hfields, ?_⟩
  · refine ⟨hindent, hname, hcolon, [' '], ['\n'], rfl, rfl, ?_⟩
    rw [plainLine]
    simp only [List.append_assoc, List.cons_append]
    rfl
  · have htrim : Text.trim (language ++ [' ']) = language.trim := Text.trim_append_blanks language rfl
    rw [htrim]
    rfl

end DocTools.Snippet.Placeholder
