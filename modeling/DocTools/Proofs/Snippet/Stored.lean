import DocTools.Proofs.Snippet.Blocks
import DocTools.Proofs.Text.Lines

/-! # Where a stored snippet comes from

A snippet that a file adds to the store is a completed block of the file. The main statements:
`get?_addText`, which says what is found under a name after one file, `exists_completed_of_addTexts` for
any number of files, and what follows from it for names (`name_of_stored`) and code
(`exists_body_of_stored`). -/
namespace DocTools.Snippet
set_option autoImplicit false

/-! ## Looking up -/

theorem get?_keepFirst (snippets : Snippets) (b : Block) (name : Text) :
    (keepFirst snippets b).get? name =
      (snippets.get? name).or (if b.name = name then some (dedent b.body) else none) := by
  rw [keepFirst]
  by_cases hname : b.name = name
  · subst hname
    rw [if_pos rfl]
    cases h : snippets.get? b.name with
    | none => simp [Dictionary.contains, h]
    | some code => simp [Dictionary.contains, h]
  · rw [if_neg hname, Option.or_none]
    split
    · rfl
    · rw [Dictionary.get?_insert, if_neg (Ne.symm hname)]

/-- Of the blocks of one name the first counts, unless the name was taken before. -/
theorem get?_foldl_keepFirst (snippets : Snippets) (blocks : List Block) (name : Text) :
    (blocks.foldl keepFirst snippets).get? name =
      (snippets.get? name).or ((blocks.find? (·.name = name)).map fun b => dedent b.body) := by
  induction blocks generalizing snippets with
  | nil => exact (Option.or_none).symm
  | cons b blocks ih =>
    rw [List.foldl_cons, ih, get?_keepFirst, Option.or_assoc]
    congr 1
    by_cases hname : b.name = name
    · rw [if_pos hname, List.find?_cons_of_pos (by simpa using hname)]
      rfl
    · rw [if_neg hname, List.find?_cons_of_neg (by simpa using hname)]
      rfl

theorem get?_addText (x : Extractor) (path : Path) (text name : Text) :
    (x.addText path text).snippets.get? name = (x.snippets.get? name).or
      ((((findings text.lines).filterMap Finding.block?).find? (·.name = name)).map
        fun b => dedent b.body) := by
  rw [Extractor.addText, snippets_foldl_record, get?_foldl_keepFirst]

/-! ## One file -/

section
variable {x : Extractor} {path : Path} {text name code : Text}

theorem exists_completed_of_stored (hbefore : x.snippets.get? name = none)
    (hafter : (x.addText path text).snippets.get? name = some code) :
    ∃ b, Completed text.lines b ∧ b.name = name ∧ dedent b.body = code := by
  rw [get?_addText, hbefore, Option.none_or, Option.map_eq_some_iff] at hafter
  obtain ⟨b, hb, hcode⟩ := hafter
  obtain ⟨f, hf, hfb⟩ := List.mem_filterMap.mp (List.mem_of_find?_eq_some hb)
  rw [Finding.block?_eq_some_iff] at hfb
  subst hfb
  exact ⟨b, mem_findings_iff.mp hf, by simpa using List.find?_some hb, hcode⟩

end

/-! ## Any number of files -/

/-- Takes in the texts of files one after another. -/
def Extractor.addTexts (x : Extractor) (sources : List (Path × Text)) : Extractor :=
  sources.foldl (fun x source => x.addText source.1 source.2) x

section
variable {sources : List (Path × Text)} {name code : Text}

theorem get?_addTexts {x : Extractor} (h : x.snippets.get? name = some code) :
    (x.addTexts sources).snippets.get? name = some code := by
  induction sources generalizing x with
  | nil => exact h
  | cons source sources ih =>
    refine ih ?_
    rw [get?_addText, h, Option.some_or]

theorem exists_completed_of_addTexts {x : Extractor} (hbefore : x.snippets.get? name = none)
    (hafter : (x.addTexts sources).snippets.get? name = some code) :
    ∃ source ∈ sources, ∃ b, Completed source.2.lines b ∧ b.name = name ∧ dedent b.body = code := by
  induction sources generalizing x with
  | nil =>
    have hsame : x.snippets.get? name = some code := hafter
    rw [hbefore] at hsame
    cases hsame
  | cons source sources ih =>
    cases hnow : (x.addText source.1 source.2).snippets.get? name with
    | none =>
      obtain ⟨other, hother, hb⟩ := ih hnow hafter
      exact ⟨other, List.mem_cons_of_mem _ hother, hb⟩
    | some first =>
      -- once taken, a name keeps its code over all further files
      have hkept : ((x.addText source.1 source.2).addTexts sources).snippets.get? name = some first :=
        get?_addTexts hnow
      obtain rfl : first = code := Option.some.inj (hkept.symm.trans hafter)
      exact ⟨source, List.mem_cons_self, exists_completed_of_stored hbefore hnow⟩

/-! ## Names and code -/

theorem mem_of_lineAt? {lines : List Text} {k : Nat} {line : Text} (h : lineAt? lines k = some line) :
    line ∈ lines := by
  cases k with
  | zero => cases h
  | succ k => exact List.mem_of_getElem? h

theorem mem_of_mem_between {lines : List Text} {s e : Nat} {line : Text}
    (h : line ∈ between lines s e) : line ∈ lines :=
  List.mem_of_mem_take (List.mem_of_mem_drop (List.mem_filter.mp h).1)

/-- A name as it can stand in a marker. -/
structure IsName (name : Text) : Prop where
  ne_nil : name ≠ []
  bracket_not_mem : ']' ∉ name
  newline_not_mem : '\n' ∉ name

theorem Completed.isName {text : Text} {b : Block} (h : Completed text.lines b) : IsName b.name := by
  obtain ⟨line, hline, hne, hbracket, before, between, behind, -, -, -, hspelled⟩ := h.stops
  refine ⟨hne, hbracket, fun hc => ?_⟩
  refine Text.newline_not_mem_of_mem_lines (mem_of_lineAt? hline) ?_
  rw [hspelled]
  exact List.mem_append_left _ (List.mem_append_right _ hc)

theorem Completed.newline_not_mem_body {text line : Text} {b : Block} (h : Completed text.lines b)
    (hline : line ∈ b.body) : '\n' ∉ line := by
  rw [h.body] at hline
  exact Text.newline_not_mem_of_mem_lines (mem_of_mem_between hline)

theorem name_of_stored
    (h : (Extractor.fresh.addTexts sources).snippets.get? name = some code) :
    name ≠ [] ∧ ']' ∉ name ∧ '\n' ∉ name := by
  obtain ⟨source, -, b, hb, rfl, -⟩ := exists_completed_of_addTexts (Dictionary.get?_empty name) h
  exact ⟨hb.isName.ne_nil, hb.isName.bracket_not_mem, hb.isName.newline_not_mem⟩

theorem exists_body_of_stored
    (h : (Extractor.fresh.addTexts sources).snippets.get? name = some code) :
    ∃ body : List Text, (∀ line ∈ body, '\n' ∉ line) ∧ dedent body = code := by
  obtain ⟨source, -, b, hb, -, hcode⟩ := exists_completed_of_addTexts (Dictionary.get?_empty name) h
  exact ⟨b.body, fun line hline => hb.newline_not_mem_body hline, hcode⟩

end

end DocTools.Snippet
