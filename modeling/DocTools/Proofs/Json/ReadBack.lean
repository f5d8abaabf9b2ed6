import DocTools.Json.Reader
import DocTools.Json.Writer

/-! # Reading what was written

A string is read one character at a time, and for each character the reader undoes what the writer
made of it: a letter after a backslash, four hexadecimal digits, or the character itself. The main
statements: `readString_escape`, for any rest of the text, and `entries?_object`, which says that the
entries of a written object are read as they were, in their order. -/
namespace DocTools.Json
set_option autoImplicit false

/-! ## Characters -/

theorem unescape?_of_shortEscape? {c letter : Char} (h : shortEscape? c = some letter) :
    unescape? letter = some c ∧ letter ≠ 'u' := by
  unfold shortEscape? at h
  repeat' split at h
  all_goals first
    | cases h; subst c; decide
    | cases h

theorem hexValue?_hexDigit : ∀ n < 16, hexValue? (hexDigit n) = some n := by decide

/-- The digits of a control are read as its number. -/
theorem readHex_control {n : Nat} (h : n < 0x20) (rest : Text) :
    readHex ('0' :: '0' :: hexDigit (n / 16) :: hexDigit (n % 16) :: rest) = .ok (n, rest) := by
  have hsize : ¬ Utf8.size ('0' :: '0' :: hexDigit (n / 16) :: hexDigit (n % 16) :: rest) < 4 := by
    have hhigh := Char.utf8Size_pos (hexDigit (n / 16))
    have hlow := Char.utf8Size_pos (hexDigit (n % 16))
    have hzero : Char.utf8Size '0' = 1 := rfl
    simp only [Utf8.size, hzero]
    omega
  have hdigits : fourDigits? '0' '0' (hexDigit (n / 16)) (hexDigit (n % 16)) = some n := by
    have hzero : hexValue? '0' = some 0 := by decide
    have hsum : ((0 * 16 + 0) * 16 + n / 16) * 16 + n % 16 = n := by omega
    simp [fourDigits?, hzero, hexValue?_hexDigit (n / 16) (by omega),
      hexValue?_hexDigit (n % 16) (by omega)]
    omega
  rw [readHex, if_neg hsize]
  simp only [hdigits]

theorem readUnicode_control {c : Char} (h : c.toNat < 0x20) (rest : Text) :
    readUnicode ('0' :: '0' :: hexDigit (c.toNat / 16) :: hexDigit (c.toNat % 16) :: rest) =
      .ok (c, rest) := by
  rw [readUnicode, readHex_control h]
  simp only
  rw [if_neg (by omega), if_pos (by omega), Char.ofNat_toNat]

/-! ## Strings -/

theorem readString_short {letter c : Char} (hletter : unescape? letter = some c) (hu : letter ≠ 'u')
    (rest : Text) : readString ('\\' :: letter :: rest) = prepend c (readString rest) := by
  rw [readString]
  · rw [hletter]
  · exact hu

theorem readString_control {c : Char} (h : c.toNat < 0x20) (rest : Text) :
    readString ('\\' :: 'u' :: '0' :: '0' :: hexDigit (c.toNat / 16) :: hexDigit (c.toNat % 16) ::
      rest) = prepend c (readString rest) := by
  have hread := readUnicode_control h rest
  rw [readString]
  split
  · rename_i stop hstop
    rw [hread] at hstop
    cases hstop
  · rename_i other after hother
    rw [hread] at hother
    cases hother
    rfl

theorem readString_plain {c : Char} (hquote : c ≠ '"') (hslash : c ≠ '\\') (h : ¬ c.toNat < 0x20)
    (rest : Text) : readString (c :: rest) = prepend c (readString rest) := by
  rw [readString, if_neg h]
  · exact fun hc => absurd hc hslash
  · exact hquote
  · exact fun _ hc => absurd hc hslash
  · exact fun _ _ hc => absurd hc hslash

theorem readString_escapeChar (c : Char) (rest : Text) :
    readString (escapeChar c ++ rest) = prepend c (readString rest) := by
  unfold escapeChar
  split
  · rename_i letter hletter
    obtain ⟨hback, hu⟩ := unescape?_of_shortEscape? hletter
    exact readString_short hback hu rest
  · rename_i hnone
    split
    · rename_i hcontrol
      exact readString_control hcontrol rest
    · rename_i hcontrol
      refine readString_plain ?_ ?_ hcontrol rest
      · rintro rfl
        cases hnone
      · rintro rfl
        cases hnone

theorem readString_escape (text rest : Text) :
    readString (escape text ++ '"' :: rest) = .ok (text, rest) := by
  induction text with
  | nil => rw [escape, List.flatMap_nil, List.nil_append, readString]
  | cons c text ih =>
    rw [escape, List.flatMap_cons, List.append_assoc, readString_escapeChar]
    rw [escape] at ih
    rw [ih]
    rfl

/-! ## Entries -/

theorem skipSpace_cons {c : Char} (h : isSpace c = false) (rest : Text) :
    skipSpace (c :: rest) = c :: rest := by
  rw [skipSpace, List.dropWhile_cons, h]
  rfl

theorem readEntryValue_string (value rest : Text) :
    readEntryValue (": ".toList ++ string value ++ rest) = .ok (value, rest) := by
  have hcolon : skipSpace (": ".toList ++ string value ++ rest) =
      ':' :: ' ' :: '"' :: (escape value ++ '"' :: rest) := by
    simp [string, skipSpace, isSpace]
  have hvalue : skipSpace (' ' :: '"' :: (escape value ++ '"' :: rest)) =
      '"' :: (escape value ++ '"' :: rest) := by
    simp [skipSpace, isSpace]
  rw [readEntryValue, hcolon]
  simp only
  rw [hvalue]
  exact readString_escape value rest

/-- What follows the first quotation mark of an entry. -/
def entryTail (e : Text × Text) : Text := escape e.1 ++ '"' :: (": ".toList ++ string e.2)

theorem skipSpace_entryLine (e : Text × Text) (rest : Text) :
    skipSpace ('\n' :: (entryLine e ++ rest)) = '"' :: (entryTail e ++ rest) := by
  simp [entryLine, entryTail, string, skipSpace, isSpace]

theorem readEntry_entryTail (e : Text × Text) (rest : Text) :
    readEntry (entryTail e ++ rest) = .ok (e, rest) := by
  have hkey : readString (entryTail e ++ rest) = .ok (e.1, ": ".toList ++ string e.2 ++ rest) := by
    rw [entryTail, List.append_assoc, List.cons_append]
    exact readString_escape e.1 _
  rw [readEntry, hkey]
  simp only
  rw [readEntryValue_string]

/-! ## Objects -/

/-- The entries after the first, as they stand in front of the end of an object. -/
def furtherLines (entries : List (Text × Text)) : Text :=
  entries.flatMap fun e => ',' :: '\n' :: entryLine e

theorem join_entryLine (e : Text × Text) (entries : List (Text × Text)) :
    Text.join [',', '\n'] ((e :: entries).map entryLine) = entryLine e ++ furtherLines entries := by
  induction entries generalizing e with
  | nil => simp [Text.join, furtherLines]
  | cons next entries ih =>
    rw [List.map_cons, Text.join_cons _ _ (by simp), ih next]
    simp [furtherLines]

theorem readNextKey_entryLine (e : Text × Text) (rest : Text) :
    readNextKey ('\n' :: (entryLine e ++ rest)) = .ok (entryTail e ++ rest) := by
  rw [readNextKey, skipSpace_entryLine]
  rfl

theorem readMore_end {text rest : Text} (h : skipSpace text = '\x7d' :: rest) :
    readMore text = .ok ([], rest) := by
  rw [readMore]
  split
  · rename_i other hother
    rw [h] at hother
    cases hother
    rfl
  all_goals simp_all

theorem readMore_comma {text rest key behind after : Text} {e : Text × Text}
    {entries : List (Text × Text)} (hcomma : skipSpace text = ',' :: rest)
    (hkey : readNextKey rest = .ok key) (hentry : readEntry key = .ok (e, behind))
    (hmore : readMore behind = .ok (entries, after)) :
    readMore text = .ok (e :: entries, after) := by
  rw [readMore]
  split
  case h_3 other hother =>
    rw [hcomma] at hother
    cases hother
    -- each reader on the way is matched together with an equation for its result
    split
    · simp_all
    · rename_i found hfound
      obtain rfl : key = found := by simpa [hkey] using hfound
      split
      · simp_all
      · rename_i entry left hleft
        obtain ⟨rfl, rfl⟩ : e = entry ∧ behind = left := by simpa [hentry] using hleft
        rw [hmore]
  all_goals simp_all

theorem readMore_furtherLines (entries : List (Text × Text)) :
    readMore (furtherLines entries ++ ['\n', '\x7d']) = .ok (entries, []) := by
  induction entries with
  | nil => exact readMore_end (by decide)
  | cons e entries ih =>
    have hsplit : furtherLines (e :: entries) ++ ['\n', '\x7d'] =
        ',' :: '\n' :: (entryLine e ++ (furtherLines entries ++ ['\n', '\x7d'])) := by
      simp [furtherLines]
    rw [hsplit]
    exact readMore_comma (skipSpace_cons (by decide) _) (readNextKey_entryLine e _)
      (readEntry_entryTail e _) ih

theorem readEntries_lines (e : Text × Text) (entries : List (Text × Text)) :
    readEntries ('\n' :: (entryLine e ++ (furtherLines entries ++ ['\n', '\x7d']))) =
      .ok (e :: entries, []) := by
  rw [readEntries, skipSpace_entryLine]
  simp only
  rw [readEntry_entryTail]
  simp only
  rw [readMore_furtherLines]

theorem object_cons (e : Text × Text) (entries : List (Text × Text)) :
    object (e :: entries) =
      '\x7b' :: '\n' :: (entryLine e ++ (furtherLines entries ++ ['\n', '\x7d'])) := by
  rw [object, join_entryLine]
  simp

theorem readObject_object (entries : List (Text × Text)) :
    readObject (object entries) = .ok entries := by
  cases entries with
  | nil => rfl
  | cons e entries =>
    rw [object_cons, readObject, skipSpace_cons (by decide)]
    simp only
    rw [readEntries_lines]
    rfl

theorem entries?_object (entries : List (Text × Text)) : entries? (object entries) = .ok entries := by
  rw [entries?, readObject_object]
  rfl

end DocTools.Json
