import DocTools.Except
import DocTools.Failure
import DocTools.Proofs.Path.Names
import Mathlib.Data.List.DropRight
import Mathlib.Data.List.Forall2

/-! # Escaped directories in patterns

An escaped text is read back as itself, character by character, whatever characters it has. The main
statement, `ofText_below`: a pattern below a directory has one literal segment for each piece between
the slashes of the directory, and then the segments that it has by itself. For the files with an
extension these are the segment for any number of directories and the one for the names with the
extension. -/
namespace DocTools.FilePattern
set_option autoImplicit false

/-! ## Literal segments -/

def literalChar (c : Char) : Wildcard :=
  if c ∈ ['?', '*', '[', ']'] then .oneOf [(c, c)] else .char c

def literal (text : Text) : Segment := text.map literalChar

theorem literal_ne_deep (text : Text) : literal text ≠ Segment.deep := by
  intro h
  cases text with
  | nil => cases h
  | cons c rest =>
    have hc : literalChar c = .anyDepth := (List.cons.inj h).1
    unfold literalChar at hc
    split at hc <;> cases hc

/-! ## Reading what was escaped -/

theorem escape_append (a b : Text) : escape (a ++ b) = escape a ++ escape b :=
  List.flatMap_append ..

theorem escape_cons_of_mem {c : Char} (h : c ∈ ['?', '*', '[', ']']) (rest : Text) :
    escape (c :: rest) = '[' :: c :: ']' :: escape rest := by
  rw [escape, List.flatMap_cons, if_pos h]
  rfl

theorem escape_cons_of_not_mem {c : Char} (h : c ∉ ['?', '*', '[', ']']) (rest : Text) :
    escape (c :: rest) = c :: escape rest := by
  rw [escape, List.flatMap_cons, if_neg h]
  rfl

theorem charClass?_single {c : Char} (h : c ≠ '!') (rest : Text) :
    charClass? (c :: ']' :: rest) = some (.oneOf [(c, c)], rest) := by
  rw [charClass?.eq_def]
  split
  · rename_i heq
    exact absurd (List.cons.inj heq).1 h
  · rename_i heq
    exact absurd (List.cons.inj heq).1 h
  · rename_i heq
    obtain ⟨rfl, rfl⟩ := List.cons.inj heq
    rfl
  · rename_i heq
    cases heq

theorem readWildcards_class (total : Nat) (before : Option Char) {c : Char} (h : c ≠ '!')
    (rest : Text) : readWildcards total before ('[' :: c :: ']' :: rest) =
      (readWildcards total (some ']') rest).map (.oneOf [(c, c)] :: ·) := by
  rw [readWildcards]
  split
  · rename_i w rest' heq
    rw [charClass?_single h] at heq
    cases heq
    rfl
  · rename_i heq
    rw [charClass?_single h] at heq
    cases heq

theorem readWildcards_char (total : Nat) (before : Option Char) {c : Char}
    (h : c ∉ ['?', '*', '[', ']']) (rest : Text) : readWildcards total before (c :: rest) =
      (readWildcards total (some c) rest).map (.char c :: ·) := by
  have hstar : c ≠ '*' := fun hc => h (by rw [hc]; decide)
  have hany : c ≠ '?' := fun hc => h (by rw [hc]; decide)
  have hopen : c ≠ '[' := fun hc => h (by rw [hc]; decide)
  rw [readWildcards]
  · rfl
  · exact fun _ hc => absurd hc hstar
  · exact fun _ hc => absurd hc hstar
  · exact fun hc => absurd hc hstar
  · exact fun hc => absurd hc hany
  · exact fun hc => absurd hc hopen

/-- An escaped text in front is read character by character, when what follows it is read the same
after every character. -/
theorem readWildcards_escape_append {total : Nat} {rest : Text} {segment : Segment}
    (h : ∀ before, readWildcards total before rest = .ok segment) (before : Option Char)
    (text : Text) :
    readWildcards total before (escape text ++ rest) = .ok (literal text ++ segment) := by
  induction text generalizing before with
  | nil => exact h before
  | cons c text ih =>
    by_cases hc : c ∈ ['?', '*', '[', ']']
    · have hne : c ≠ '!' := by
        rintro rfl
        exact absurd hc (by decide)
      rw [escape_cons_of_mem hc, literal, List.map_cons, literalChar, if_pos hc]
      show readWildcards total before ('[' :: c :: ']' :: (escape text ++ rest)) = _
      rw [readWildcards_class _ _ hne, ih]
      rfl
    · rw [escape_cons_of_not_mem hc, literal, List.map_cons, literalChar, if_neg hc, List.cons_append,
        readWildcards_char _ _ hc, ih]
      rfl

theorem readWildcards_nil (total : Nat) (before : Option Char) :
    readWildcards total before [] = .ok [] := by
  rw [readWildcards]

theorem wildcards_escape (text : Text) : wildcards (escape text) = .ok (literal text) := by
  have h := readWildcards_escape_append (readWildcards_nil (escape text).length) none text
  rw [List.append_nil, List.append_nil] at h
  exact h

/-! ## Reading behind a directory -/

/-- What is read does not depend on the place in the text, and the beginning is like a slash before. -/
theorem readWildcards_of_ok {total : Nat} {before : Option Char} {text : Text} {ws : Segment}
    (h : readWildcards total before text = .ok ws) (total' : Nat) {before' : Option Char}
    (hstart : before = none ∨ before = some '/' → before' = none ∨ before' = some '/') :
    readWildcards total' before' text = .ok ws := by
  fun_induction readWildcards total before text generalizing ws before' with
  | case1 before =>
    rw [readWildcards]
    exact h
  | case2 | case5 | case6 | case10 => cases h
  | case3 before hbefore =>
    cases h
    rw [readWildcards, if_pos (hstart hbefore)]
  | case4 before hbefore rest hstars ih =>
    obtain ⟨more, hmore, hws⟩ := bind_eq_ok.mp h
    rw [readWildcards, if_pos (hstart hbefore)]
    exact bind_eq_ok.mpr ⟨more, ih hmore fun _ => .inr rfl, hws⟩
  | case7 before rest htwo hone ih =>
    obtain ⟨more, hmore, hws⟩ := bind_eq_ok.mp h
    rw [readWildcards]
    · exact bind_eq_ok.mpr ⟨more, ih hmore id, hws⟩
    · exact htwo
    · exact hone
  | case8 before rest ih =>
    obtain ⟨more, hmore, hws⟩ := bind_eq_ok.mp h
    rw [readWildcards]
    exact bind_eq_ok.mpr ⟨more, ih hmore id, hws⟩
  | case9 before inside w rest hclass ih =>
    obtain ⟨more, hmore, hws⟩ := bind_eq_ok.mp h
    rw [readWildcards]
    split
    · rename_i w' rest' hclass'
      obtain ⟨rfl, rfl⟩ := Prod.mk.inj (Option.some.inj (hclass.symm.trans hclass'))
      exact bind_eq_ok.mpr ⟨more, ih hmore id, hws⟩
    · rename_i hclass'
      rw [hclass] at hclass'
      cases hclass'
  | case11 before c rest hthree htwo hone hany hopen ih =>
    obtain ⟨more, hmore, hws⟩ := bind_eq_ok.mp h
    rw [readWildcards]
    · exact bind_eq_ok.mpr ⟨more, ih hmore id, hws⟩
    · exact hthree
    · exact htwo
    · exact hone
    · exact hany
    · exact hopen

/-! ## Directories in pieces -/

def trimEnd (path : Path) : Path := path.rdropWhile (· == '/')

theorem trimEnd_concat_slash (path : Path) : trimEnd (path ++ ['/']) = trimEnd path :=
  List.rdropWhile_concat_pos _ _ _ rfl

theorem trimEnd_append_of_ne {path : Path} {c : Char} (h : c ≠ '/') :
    trimEnd (path ++ [c]) = path ++ [c] :=
  List.rdropWhile_concat_neg _ _ _ fun hc => h (eq_of_beq hc)

theorem escape_slash : escape ['/'] = ['/'] := rfl

theorem trimEnd_escape (path : Path) : trimEnd (escape path) = escape (trimEnd path) := by
  induction path using List.reverseRecOn with
  | nil => rfl
  | append_singleton front c ih =>
    rw [escape_append]
    by_cases hslash : c = '/'
    · rw [hslash, escape_slash, trimEnd_concat_slash, trimEnd_concat_slash, ih]
    · rw [trimEnd_append_of_ne hslash, escape_append]
      by_cases hc : c ∈ ['?', '*', '[', ']']
      · rw [escape_cons_of_mem hc]
        have hend : trimEnd ((escape front ++ ['[', c]) ++ [']']) = (escape front ++ ['[', c]) ++ [']'] :=
          trimEnd_append_of_ne (by decide)
        rw [List.append_assoc] at hend
        exact hend
      · rw [escape_cons_of_not_mem hc]
        exact trimEnd_append_of_ne hslash

theorem names_trimEnd (path : Path) : (trimEnd path).names = path.names := by
  induction path using List.reverseRecOn with
  | nil => rfl
  | append_singleton front c ih =>
    by_cases hslash : c = '/'
    · rw [hslash, trimEnd_concat_slash, ih, Path.names_append_slash, Path.names_nil, List.append_nil]
    · rw [trimEnd_append_of_ne hslash]

theorem splitOn_escape (path : Path) :
    Text.splitOn '/' (escape path) = (Text.splitOn '/' path).map escape := by
  induction path with
  | nil => rfl
  | cons c path ih =>
    obtain ⟨piece, pieces, hs⟩ := Text.exists_splitOn_eq_cons '/' path
    rw [hs, List.map_cons] at ih
    by_cases hc : c ∈ ['?', '*', '[', ']']
    · have hne : c ≠ '/' := by
        rintro rfl
        exact absurd hc (by decide)
      rw [escape_cons_of_mem hc, Text.splitOn_cons_of_ne hne hs, List.map_cons, escape_cons_of_mem hc]
      exact Text.splitOn_cons_of_ne (by decide)
        (Text.splitOn_cons_of_ne hne (Text.splitOn_cons_of_ne (by decide) ih))
    · rw [escape_cons_of_not_mem hc]
      by_cases hslash : c = '/'
      · rw [hslash, Text.splitOn_cons_mark, Text.splitOn_cons_mark, hs, ih, List.map_cons,
          List.map_cons]
        rfl
      · rw [Text.splitOn_cons_of_ne hslash ih, Text.splitOn_cons_of_ne hslash hs, List.map_cons,
          escape_cons_of_not_mem hc]

/-! ## Patterns below a directory -/

theorem mapM_eq_ok {α β ε : Type} {f : α → Except ε β} {as : List α} {bs : List β}
    (h : List.Forall₂ (fun a b => f a = .ok b) as bs) : as.mapM f = .ok bs := by
  induction h with
  | nil => rfl
  | cons ha _ ih =>
    rw [List.mapM_cons, ha, ih]
    rfl

theorem collapse_cons_of_ne {segment : Segment} (h : segment ≠ .deep) (rest : List Segment) :
    collapse (segment :: rest) = segment :: collapse rest := by
  rw [collapse]
  cases collapse rest with
  | nil => rfl
  | cons next others => exact if_neg fun hc => h hc.1

theorem collapse_literals (pieces : List Text) (rest : List Segment) :
    collapse (pieces.map literal ++ rest) = pieces.map literal ++ collapse rest := by
  induction pieces with
  | nil => rfl
  | cons piece pieces ih =>
    rw [List.map_cons, List.cons_append, collapse_cons_of_ne (literal_ne_deep piece), ih,
      List.cons_append]

/-- The pieces of a text that segments are read from. -/
def piecesOf (text : Text) : List Text :=
  if (Text.splitOn '/' text).getLast? = some [] then (Text.splitOn '/' text).dropLast
  else Text.splitOn '/' text

theorem ofText_eq_ok_iff {text : Text} {q : FilePattern} : ofText text = .ok q ↔
    (∃ whole, wildcards text = .ok whole) ∧
      ∃ segments, (piecesOf text).mapM wildcards = .ok segments ∧
        q = ⟨collapse segments, Path.endsInSlash text⟩ := by
  constructor
  · intro h
    obtain ⟨whole, hwhole, h⟩ := bind_eq_ok.mp h
    obtain ⟨segments, hsegments, h⟩ := bind_eq_ok.mp h
    exact ⟨⟨whole, hwhole⟩, segments, hsegments, (Except.ok.inj h).symm⟩
  · rintro ⟨⟨whole, hwhole⟩, segments, hsegments, rfl⟩
    exact bind_eq_ok.mpr ⟨whole, hwhole, bind_eq_ok.mpr ⟨segments, hsegments, rfl⟩⟩

theorem piecesOf_append (front text : Text) :
    piecesOf (front ++ '/' :: text) = Text.splitOn '/' front ++ piecesOf text := by
  have hne := Text.splitOn_ne_nil '/' text
  unfold piecesOf
  rw [Text.splitOn_append, List.getLast?_append_of_ne_nil _ hne, List.dropLast_append_of_ne_nil hne,
    apply_ite (Text.splitOn '/' front ++ ·)]

/-- A pattern below a directory has one literal segment for each piece of the directory, and then its
own segments. -/
theorem ofText_below (dir : Path) {pattern : Text} {q : FilePattern} (h : ofText pattern = .ok q) :
    ofText (FileTree.patternBelow dir pattern) =
      .ok ⟨(Text.splitOn '/' (trimEnd dir)).map literal ++ q.segments,
        Path.endsInSlash ('/' :: pattern)⟩ := by
  obtain ⟨⟨whole, hwhole⟩, segments, hsegments, rfl⟩ := ofText_eq_ok_iff.mp h
  have htext : FileTree.patternBelow dir pattern = escape (trimEnd dir) ++ '/' :: pattern := by
    rw [← trimEnd_escape]
    rfl
  have hend : Path.endsInSlash (escape (trimEnd dir) ++ '/' :: pattern) =
      Path.endsInSlash ('/' :: pattern) := by
    unfold Path.endsInSlash
    rw [List.getLast?_append_of_ne_nil _ (List.cons_ne_nil _ _)]
  have hdir : ((Text.splitOn '/' (trimEnd dir)).map escape).mapM wildcards =
      .ok ((Text.splitOn '/' (trimEnd dir)).map literal) := by
    apply mapM_eq_ok
    rw [List.forall₂_map_left_iff, List.forall₂_map_right_iff, List.forall₂_same]
    exact fun piece _ => wildcards_escape piece
  have hslash (total : Nat) (before : Option Char) :
      readWildcards total before ('/' :: pattern) = .ok (.char '/' :: whole) := by
    rw [readWildcards_char total before (by decide), readWildcards_of_ok hwhole total fun _ => .inr rfl]
    rfl
  rw [htext, ofText_eq_ok_iff]
  refine ⟨⟨_, readWildcards_escape_append (hslash _) none _⟩,
    (Text.splitOn '/' (trimEnd dir)).map literal ++ segments, ?_, ?_⟩
  · rw [piecesOf_append, splitOn_escape, List.mapM_append, hdir, hsegments]
    rfl
  · rw [collapse_literals, hend]

/-- Behind the slash a pattern ends as it does by itself, unless it is empty. -/
theorem ofText_below_of_ne_nil (dir : Path) {pattern : Text} {q : FilePattern} (hne : pattern ≠ [])
    (h : ofText pattern = .ok q) : ofText (FileTree.patternBelow dir pattern) =
      .ok ⟨(Text.splitOn '/' (trimEnd dir)).map literal ++ q.segments, q.onlyDirectories⟩ := by
  have hend : Path.endsInSlash ('/' :: pattern) = q.onlyDirectories := by
    obtain ⟨-, segments, -, rfl⟩ := ofText_eq_ok_iff.mp h
    show Path.endsInSlash (['/'] ++ pattern) = Path.endsInSlash pattern
    unfold Path.endsInSlash
    rw [List.getLast?_append_of_ne_nil _ hne]
  rw [ofText_below dir h, hend]

theorem glob_below (tree : FileTree) {dir : Path} {pattern : Text} {full : FilePattern}
    (h : ofText (FileTree.patternBelow dir pattern) = .ok full) :
    tree.glob dir pattern = .ok (files tree full) := by
  rw [FileTree.glob, FileTree.filesMatching, h]
  rfl

/-! ## Files with an extension -/

def withExtension (extension : Text) : Text := "**/*.".toList ++ extension

def extensionSegment (extension : Text) : Segment := .anyRun :: literal ('.' :: extension)

/-- A text that is its own pattern, within one segment. -/
structure IsPlain (text : Text) : Prop where
  escape_eq : escape text = text
  slash_not_mem : '/' ∉ text

instance (text : Text) : Decidable (IsPlain text) :=
  decidable_of_iff (escape text = text ∧ '/' ∉ text) ⟨fun h => ⟨h.1, h.2⟩, fun h => ⟨h.1, h.2⟩⟩

theorem wildcards_stars : wildcards "**".toList = .ok Segment.deep := by
  show readWildcards 2 none ['*', '*'] = _
  rw [readWildcards, if_pos (.inl rfl)]
  rfl

section
variable {extension : Text} (h : IsPlain extension)
include h

theorem readWildcards_extension (total : Nat) (before : Option Char) :
    readWildcards total before ("*.".toList ++ extension) = .ok (extensionSegment extension) := by
  have hread := readWildcards_escape_append (readWildcards_nil total) (some '*') ('.' :: extension)
  rw [escape_cons_of_not_mem (by decide), h.escape_eq, List.append_nil, List.append_nil] at hread
  show readWildcards total before ('*' :: '.' :: extension) = _
  rw [readWildcards]
  · rw [hread]
    rfl
  · intro rest hc
    cases hc
  · intro rest hc
    cases hc

theorem slash_not_mem_extension : '/' ∉ "*.".toList ++ extension := by
  rw [List.mem_append, not_or]
  exact ⟨by decide, h.slash_not_mem⟩

theorem piecesOf_extension : piecesOf ("*.".toList ++ extension) = ["*.".toList ++ extension] := by
  rw [piecesOf, Text.splitOn_of_not_mem (slash_not_mem_extension h)]
  exact if_neg fun hc => nomatch hc

/-- The pattern for the names with an extension, in one directory. -/
theorem ofText_extension :
    ofText ("*.".toList ++ extension) = .ok ⟨[extensionSegment extension], false⟩ := by
  have hread := readWildcards_extension h
  refine ofText_eq_ok_iff.mpr ⟨⟨_, hread _ none⟩, [extensionSegment extension], ?_, ?_⟩
  · rw [piecesOf_extension h]
    exact mapM_eq_ok (.cons (hread _ none) .nil)
  · have hend : Path.endsInSlash ([] ++ ("*.".toList ++ extension)) = false :=
      Path.endsInSlash_append (List.cons_ne_nil _ _) (slash_not_mem_extension h)
    exact congrArg _ hend.symm

theorem wildcards_withExtension :
    wildcards (withExtension extension) = .ok (.anyDepth :: extensionSegment extension) := by
  show readWildcards _ none ('*' :: '*' :: '/' :: ("*.".toList ++ extension)) = _
  rw [readWildcards, if_pos (.inl rfl)]
  show (do return Wildcard.anyDepth :: (← readWildcards _ (some '/') ("*.".toList ++ extension))) = _
  rw [readWildcards_extension h]
  rfl

/-- The pattern for the names with an extension, at any depth. -/
theorem ofText_withExtension :
    ofText (withExtension extension) = .ok ⟨[.deep, extensionSegment extension], false⟩ := by
  have hpieces : piecesOf (withExtension extension) = ["**".toList, "*.".toList ++ extension] := by
    show piecesOf ("**".toList ++ '/' :: ("*.".toList ++ extension)) = _
    rw [piecesOf_append, piecesOf_extension h]
    rfl
  have hend : Path.endsInSlash ("**/".toList ++ ("*.".toList ++ extension)) = false :=
    Path.endsInSlash_append (List.cons_ne_nil _ _) (slash_not_mem_extension h)
  refine ofText_eq_ok_iff.mpr
    ⟨⟨_, wildcards_withExtension h⟩, [Segment.deep, extensionSegment extension], ?_, ?_⟩
  · rw [hpieces]
    exact mapM_eq_ok (.cons wildcards_stars (.cons (readWildcards_extension h _ none) .nil))
  · exact congrArg (FilePattern.mk [Segment.deep, extensionSegment extension]) hend.symm

end

def segmentsBelow (dir : Path) (extension : Text) : List Segment :=
  (Text.splitOn '/' (trimEnd dir)).map literal ++ [.deep, extensionSegment extension]

/-- The pattern for the files with an extension below a directory is well formed, however the
directory is spelled. -/
theorem ofText_patternBelow (dir : Path) {extension : Text} (h : IsPlain extension) :
    ofText (FileTree.patternBelow dir (withExtension extension)) =
      .ok ⟨segmentsBelow dir extension, false⟩ :=
  ofText_below_of_ne_nil dir (List.cons_ne_nil _ _) (ofText_withExtension h)

end DocTools.FilePattern
