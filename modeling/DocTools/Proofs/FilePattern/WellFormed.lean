import DocTools.Proofs.FilePattern.Literal

/-! # Well-formed patterns

A pattern is refused below a directory exactly if it is refused by itself, however the directory is
spelled. The main statement is `isPattern_below_iff`. -/
namespace DocTools.FilePattern
set_option autoImplicit false

def IsPattern (text : Text) : Prop := ∃ q, ofText text = .ok q

instance (text : Text) : Decidable (IsPattern text) :=
  match h : ofText text with
  | .ok q => isTrue ⟨q, h⟩
  | .error _ => isFalse fun ⟨_, hq⟩ => nomatch h.symm.trans hq

/-! ## What is read behind a directory -/

/-- When an escaped text and what follows it can be read, what follows can be read. -/
theorem exists_readWildcards_of_escape_append {total : Nat} {before : Option Char} {text rest : Text}
    {whole : Segment} (h : readWildcards total before (escape text ++ rest) = .ok whole) :
    ∃ last segment, readWildcards total last rest = .ok segment := by
  induction text generalizing before whole with
  | nil => exact ⟨before, whole, h⟩
  | cons c text ih =>
    by_cases hc : c ∈ ['?', '*', '[', ']']
    · have hne : c ≠ '!' := by
        rintro rfl
        exact absurd hc (by decide)
      rw [escape_cons_of_mem hc] at h
      obtain ⟨_, hrest, -⟩ := exists_of_map_eq_ok ((readWildcards_class total before hne _).symm.trans h)
      exact ih hrest
    · rw [escape_cons_of_not_mem hc, List.cons_append, readWildcards_char _ _ hc] at h
      obtain ⟨_, hrest, -⟩ := exists_of_map_eq_ok h
      exact ih hrest

theorem patternBelow_eq (dir : Path) (pattern : Text) :
    FileTree.patternBelow dir pattern = escape (trimEnd dir) ++ '/' :: pattern := by
  rw [← trimEnd_escape]
  rfl

theorem exists_wildcards_of_below {dir : Path} {pattern : Text} {whole : Segment}
    (h : wildcards (FileTree.patternBelow dir pattern) = .ok whole) :
    ∃ segment, wildcards pattern = .ok segment := by
  rw [patternBelow_eq] at h
  obtain ⟨_, _, hslash⟩ := exists_readWildcards_of_escape_append h
  rw [readWildcards_char _ _ (by decide)] at hslash
  obtain ⟨segment, hread, -⟩ := exists_of_map_eq_ok hslash
  exact ⟨segment, readWildcards_of_ok hread pattern.length fun _ => .inl rfl⟩

theorem exists_pieces_of_below {dir : Path} {pattern : Text} {segments : List Segment}
    (h : (piecesOf (FileTree.patternBelow dir pattern)).mapM wildcards = .ok segments) :
    ∃ own, (piecesOf pattern).mapM wildcards = .ok own := by
  rw [patternBelow_eq, piecesOf_append, List.mapM_append] at h
  obtain ⟨_, -, h⟩ := bind_eq_ok.mp h
  obtain ⟨own, hown, -⟩ := bind_eq_ok.mp h
  exact ⟨own, hown⟩

/-- Below a directory the same patterns are well formed as by themselves. -/
theorem isPattern_below_iff (dir : Path) (pattern : Text) :
    IsPattern (FileTree.patternBelow dir pattern) ↔ IsPattern pattern := by
  constructor
  · rintro ⟨q, hq⟩
    obtain ⟨⟨_, hwhole⟩, _, hsegments, -⟩ := ofText_eq_ok_iff.mp hq
    obtain ⟨own, hown⟩ := exists_pieces_of_below hsegments
    exact ⟨_, ofText_eq_ok_iff.mpr ⟨exists_wildcards_of_below hwhole, own, hown, rfl⟩⟩
  · rintro ⟨q, hq⟩
    exact ⟨_, ofText_below dir hq⟩

/-! ## Searches -/

theorem glob_of_isPattern (tree : FileTree) (dir : Path) {pattern : Text} (h : IsPattern pattern) :
    ∃ paths, tree.glob dir pattern = .ok paths := by
  obtain ⟨full, hfull⟩ := (isPattern_below_iff dir pattern).mpr h
  exact ⟨_, glob_below tree hfull⟩

/-- A pattern that is not well formed is refused before anything is searched for. -/
theorem glob_of_not_isPattern (tree : FileTree) (dir : Path) {pattern : Text}
    (h : ¬IsPattern pattern) : ∃ e, ofText (FileTree.patternBelow dir pattern) = .error e ∧
      tree.glob dir pattern = .error (.pattern (FileTree.patternBelow dir pattern) e) := by
  cases hfull : ofText (FileTree.patternBelow dir pattern) with
  | ok q => exact absurd ((isPattern_below_iff dir pattern).mp ⟨q, hfull⟩) h
  | error e =>
    refine ⟨e, rfl, ?_⟩
    rw [FileTree.glob, FileTree.filesMatching, hfull]
    rfl

end DocTools.FilePattern
