import DocTools.Text.Blank
import Mathlib.Data.List.DropRight

/-! # Blanks at the ends of a text

What trimming takes off and what it leaves. The main statements: `trim_eq_self_iff` and
`isTrimmed_trim`, which say that trimmed texts are those with no blank at either end, and
`trim_append_blanks`. -/
namespace DocTools.Text
set_option autoImplicit false

variable {text blanks : Text}

/-- No blank stands at either end. -/
def IsTrimmed (text : Text) : Prop :=
  (∀ c ∈ text.head?, isBlank c = false) ∧ ∀ c ∈ text.getLast?, isBlank c = false

/-! ## The end -/

theorem trimEnd_eq_rdropWhile (text : Text) : trimEnd text = text.rdropWhile isBlank := rfl

theorem trimEnd_append_blanks (text : Text) (h : blanks.allBlank = true) :
    trimEnd (text ++ blanks) = trimEnd text := by
  induction blanks using List.reverseRecOn with
  | nil => rw [List.append_nil]
  | append_singleton front c ih =>
    rw [allBlank, List.all_append, Bool.and_eq_true, List.all_cons, List.all_nil, Bool.and_true] at h
    rw [← List.append_assoc, trimEnd_eq_rdropWhile, List.rdropWhile_concat_pos _ _ _ h.2]
    exact ih h.1

theorem trimEnd_concat (text : Text) {c : Char} (h : isBlank c = false) :
    trimEnd (text ++ [c]) = text ++ [c] :=
  List.rdropWhile_concat_neg _ _ _ (Bool.eq_false_iff.mp h)

theorem exists_trimEnd_append (text : Text) :
    ∃ blanks : Text, blanks.allBlank = true ∧ text = trimEnd text ++ blanks := by
  refine ⟨text.rtakeWhile isBlank, ?_, List.rdropWhile_append_rtakeWhile.symm⟩
  rw [allBlank, List.all_eq_true]
  exact fun c hc => List.mem_rtakeWhile_imp hc

theorem head?_trimEnd (h : trimEnd text ≠ []) : (trimEnd text).head? = text.head? := by
  obtain ⟨blanks, -, hsplit⟩ := exists_trimEnd_append text
  obtain ⟨c, rest, hc⟩ := List.exists_cons_of_ne_nil h
  rw [hc] at hsplit ⊢
  rw [hsplit]
  rfl

/-! ## Both ends -/

theorem trimStart_eq_self_iff :
    trimStart text = text ↔ ∀ c ∈ text.head?, isBlank c = false := by
  cases text with
  | nil => simp [trimStart]
  | cons c rest =>
    have hhead : (∀ d ∈ (c :: rest).head?, isBlank d = false) ↔ isBlank c = false := by simp
    rw [hhead, trimStart, List.dropWhile_cons]
    by_cases hc : isBlank c = true
    · have hlen := (List.dropWhile_sublist (l := rest) isBlank).length_le
      rw [if_pos hc, hc]
      refine ⟨fun h => ?_, fun h => Bool.noConfusion h⟩
      rw [h, List.length_cons] at hlen
      omega
    · rw [if_neg hc]
      exact ⟨fun _ => Bool.eq_false_iff.mpr hc, fun _ => rfl⟩

theorem trimEnd_eq_self_iff :
    trimEnd text = text ↔ ∀ c ∈ text.getLast?, isBlank c = false := by
  rw [trimEnd, List.reverse_eq_iff, ← List.head?_reverse]
  exact trimStart_eq_self_iff

theorem isTrimmed_trim (text : Text) : IsTrimmed (trim text) := by
  constructor
  · intro c hc
    have hne : trimEnd (trimStart text) ≠ [] := by
      intro hnil
      rw [trim, hnil] at hc
      cases hc
    rw [trim, head?_trimEnd hne] at hc
    exact trimStart_eq_self_iff.mp (List.dropWhile_idempotent _ _) c hc
  · exact trimEnd_eq_self_iff.mp (List.rdropWhile_idempotent _ _)

theorem trim_eq_self_iff : trim text = text ↔ IsTrimmed text := by
  constructor
  · intro h
    exact h ▸ isTrimmed_trim text
  · rintro ⟨hstart, hend⟩
    rw [trim, trimStart_eq_self_iff.mpr hstart, trimEnd_eq_self_iff.mpr hend]

instance (text : Text) : Decidable text.IsTrimmed := decidable_of_iff _ trim_eq_self_iff

theorem isTrimmed_nil : IsTrimmed [] := by simp [IsTrimmed]

theorem IsTrimmed.append {a b : Text} (ha : a.IsTrimmed) (hb : b.IsTrimmed) (hane : a ≠ []) (hbne : b ≠ [])
    (middle : Text) : IsTrimmed (a ++ middle ++ b) := by
  constructor
  · rw [List.append_assoc, List.head?_append_of_ne_nil a hane]
    exact ha.1
  · rw [List.getLast?_append_of_ne_nil _ hbne]
    exact hb.2

theorem trim_append_blanks (text : Text) (h : blanks.allBlank = true) :
    trim (text ++ blanks) = trim text := by
  rw [trim, trimStart, List.dropWhile_append]
  split
  · rename_i hempty
    have hstart : trimStart text = [] := List.isEmpty_iff.mp hempty
    have hblanks : trimStart blanks = [] := trimStart_eq_nil_iff.mpr h
    rw [trim, hstart]
    exact congrArg trimEnd hblanks
  · exact trimEnd_append_blanks _ h

theorem trim_blanks_append (text : Text) (h : blanks.allBlank = true) :
    trim (blanks ++ text) = trim text := by
  rw [trim, trimStart, List.dropWhile_append_of_pos (List.all_eq_true.mp h)]
  rfl

theorem mem_of_mem_trim {c : Char} (h : c ∈ trim text) : c ∈ text :=
  (List.dropWhile_suffix isBlank).subset ((List.rdropWhile_prefix isBlank _).subset h)

end DocTools.Text
