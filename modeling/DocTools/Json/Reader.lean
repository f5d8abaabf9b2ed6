import DocTools.Json.Escape
import DocTools.Json.Number

/-! # Reading an object of strings

A reader takes what it reads off the front of a text and gives the rest; where it can not go on it
stops with a fault. Of entries with one key the caller decides which counts; they come in the order
in which they are written. -/
namespace DocTools.Json
set_option autoImplicit false

/-! ## Strings -/

def hexValue? (c : Char) : Option Nat :=
  if '0' ≤ c ∧ c ≤ '9' then some (c.toNat - '0'.toNat)
  else if 'a' ≤ c ∧ c ≤ 'f' then some (c.toNat - 'a'.toNat + 10)
  else if 'A' ≤ c ∧ c ≤ 'F' then some (c.toNat - 'A'.toNat + 10)
  else none

def fourDigits? (a b c d : Char) : Option Nat := do
  return (((← hexValue? a) * 16 + (← hexValue? b)) * 16 + (← hexValue? c)) * 16 + (← hexValue? d)

def readHex (text : Text) : Reading Nat :=
  if Utf8.size text < 4 then .error ⟨.endInString, [], 0⟩
  else match text with
    | a :: b :: c :: d :: rest =>
      match fourDigits? a b c d with
      | some n => .ok (n, rest)
      | none => .error ⟨.badEscape, text, 4⟩
    | _ => .error ⟨.badEscape, text, 4⟩

theorem length_of_readHex {text rest : Text} {n : Nat} (h : readHex text = .ok (n, rest)) :
    rest.length < text.length := by
  unfold readHex at h
  split at h
  · simp at h
  · split at h
    · split at h
      · simp only [Except.ok.injEq, Prod.mk.injEq] at h
        obtain ⟨_, rfl⟩ := h
        simp; omega
      · simp at h
    · simp at h

/-- The unit that has to follow the first of a surrogate pair, with the escape it begins with. -/
def readSecondUnit (text : Text) : Reading Nat :=
  match text with
  | [] | ['\\'] => .error ⟨.endInString, [], 0⟩
  | '\\' :: 'u' :: rest => readHex rest
  | '\\' :: rest => .error ⟨.noSecondSurrogate, rest, 1⟩
  | rest => .error ⟨.noSecondSurrogate, rest, 1⟩

theorem length_of_readSecondUnit {text rest : Text} {n : Nat}
    (h : readSecondUnit text = .ok (n, rest)) : rest.length < text.length := by
  unfold readSecondUnit at h
  split at h
  · simp at h
  · simp at h
  · have := length_of_readHex h
    simp; omega
  · simp at h
  · simp at h

/-- The character after `\u`: one unit, or two that make up a surrogate pair. -/
def readUnicode (text : Text) : Reading Char :=
  match readHex text with
  | .error stop => .error stop
  | .ok (high, rest) =>
    if 0xDC00 ≤ high ∧ high ≤ 0xDFFF then .error ⟨.loneSurrogate, rest, 0⟩
    else if high < 0xD800 ∨ 0xDBFF < high then .ok (Char.ofNat high, rest)
    else
      match readSecondUnit rest with
      | .error stop => .error stop
      | .ok (low, rest) =>
        if low < 0xDC00 ∨ 0xDFFF < low then .error ⟨.loneSurrogate, rest, 0⟩
        else .ok (Char.ofNat (0x10000 + (high - 0xD800) * 0x400 + (low - 0xDC00)), rest)

theorem length_of_readUnicode {text rest : Text} {c : Char} (h : readUnicode text = .ok (c, rest)) :
    rest.length < text.length := by
  unfold readUnicode at h
  split at h
  · simp at h
  · next hhex =>
    have := length_of_readHex hhex
    split at h
    · simp at h
    · split at h
      · simp only [Except.ok.injEq, Prod.mk.injEq] at h
        obtain ⟨_, rfl⟩ := h
        exact this
      · split at h
        · simp at h
        · next hsecond =>
          have := length_of_readSecondUnit hsecond
          split at h
          · simp at h
          · simp only [Except.ok.injEq, Prod.mk.injEq] at h
            obtain ⟨_, rfl⟩ := h
            omega

def prepend (c : Char) : Reading Text → Reading Text
  | .error stop => .error stop
  | .ok (value, rest) => .ok (c :: value, rest)

theorem prepend_eq_ok {c : Char} {r : Reading Text} {value rest : Text}
    (h : prepend c r = .ok (value, rest)) : ∃ tail, r = .ok (tail, rest) ∧ value = c :: tail := by
  cases r with
  | error => simp [prepend] at h
  | ok p => simp only [prepend, Except.ok.injEq, Prod.mk.injEq] at h; exact ⟨p.1, by rw [← h.2], h.1.symm⟩

/-- The rest of a string whose opening quotation mark has been read. -/
def readString (text : Text) : Reading Text :=
  match text with
  | [] | ['\\'] => .error ⟨.endInString, [], 0⟩
  | '"' :: rest => .ok ([], rest)
  | '\\' :: 'u' :: rest =>
    match _h : readUnicode rest with
    | .error stop => .error stop
    | .ok (c, after) => prepend c (readString after)
  | '\\' :: letter :: rest =>
    match unescape? letter with
    | none => .error ⟨.badEscape, letter :: rest, 1⟩
    | some c => prepend c (readString rest)
  | c :: rest =>
    if c.toNat < 0x20 then .error ⟨.controlCharacter, rest, 0⟩ else prepend c (readString rest)
termination_by text.length
decreasing_by
  all_goals simp only [List.length_cons]
  all_goals first
    | omega
    | exact Nat.lt_succ_of_lt (Nat.lt_succ_of_lt (length_of_readUnicode _h))

theorem length_of_readString {text rest value : Text} (h : readString text = .ok (value, rest)) :
    rest.length < text.length := by
  fun_induction readString text generalizing value rest with
  | case1 => simp at h
  | case2 => simp at h
  | case3 tail =>
    simp only [Except.ok.injEq, Prod.mk.injEq] at h
    simp [h.2]
  | case4 => simp at h
  | case5 tail c after hu ih =>
    obtain ⟨_, hr, _⟩ := prepend_eq_ok h
    have := ih hr
    have := length_of_readUnicode hu
    simp; omega
  | case6 => simp at h
  | case7 letter tail _ c hc ih =>
    obtain ⟨_, hr, _⟩ := prepend_eq_ok h
    have := ih hr
    simp; omega
  | case8 => simp at h
  | case9 c tail _ _ _ _ _ ih =>
    obtain ⟨_, hr, _⟩ := prepend_eq_ok h
    have := ih hr
    simp; omega

/-! ## Values that are not strings -/

def isSpace (c : Char) : Bool := c == ' ' || c == '\t' || c == '\n' || c == '\r'

def skipSpace (text : Text) : Text := text.dropWhile isSpace

theorem length_skipSpace (text : Text) : (skipSpace text).length ≤ text.length :=
  (List.dropWhile_sublist _).length_le

def readWord (kind : Kind) : Text → Text → Except Stop (Kind × Text)
  | [], text => .ok (kind, text)
  | _ :: _, [] => .error ⟨.endInValue, [], 0⟩
  | a :: word, c :: rest =>
    if a = c then readWord kind word rest else .error ⟨.badWord, c :: rest, 1⟩

/-- What stands at the front of a text, as far as it is read to name it. -/
def readKind (text : Text) : Except Stop (Kind × Text) :=
  match text with
  | 'n' :: rest => readWord .null "ull".toList rest
  | 't' :: rest => readWord (.boolean true) "rue".toList rest
  | 'f' :: rest => readWord (.boolean false) "alse".toList rest
  | '-' :: rest => (readNumber true rest).map fun r => (r.1.kind, r.2)
  | '"' :: rest => (readString rest).map fun r => (.string r.1, r.2)
  | '[' :: _ => .ok (.sequence, text)
  | '\x7b' :: _ => .ok (.map, text)
  | c :: _ =>
    if c.isDigit then (readNumber false text).map fun r => (r.1.kind, r.2)
    else .error ⟨.noValue, text, 1⟩
  | [] => .error ⟨.noValue, [], 0⟩

/-- The stop at something that is not what is wanted. -/
def wrongType (wanted : Wanted) (text : Text) : Stop :=
  match readKind text with
  | .error stop => stop
  | .ok (kind, rest) => ⟨.wrongType kind wanted, rest, 0⟩

/-! ## Objects -/

def readEntryValue (text : Text) : Reading Text :=
  match skipSpace text with
  | ':' :: rest =>
    match skipSpace rest with
    | [] => .error ⟨.endInValue, [], 0⟩
    | '"' :: rest => readString rest
    | other => .error (wrongType .string other)
  | [] => .error ⟨.endInObject, [], 0⟩
  | other => .error ⟨.noColon, other, 1⟩

/-- A key whose opening quotation mark has been read, and its value. -/
def readEntry (text : Text) : Reading (Text × Text) :=
  match readString text with
  | .error stop => .error stop
  | .ok (key, rest) =>
    match readEntryValue rest with
    | .error stop => .error stop
    | .ok (value, rest) => .ok ((key, value), rest)

theorem length_of_readEntryValue {text rest value : Text}
    (h : readEntryValue text = .ok (value, rest)) : rest.length < text.length := by
  have hskip := length_skipSpace text
  unfold readEntryValue at h
  split at h
  · next after heq =>
    have hskip' := length_skipSpace after
    split at h
    · simp at h
    · next heq' =>
      have := length_of_readString h
      simp_all; omega
    · simp at h
  · simp at h
  · simp at h

theorem length_of_readEntry {text rest : Text} {e : Text × Text}
    (h : readEntry text = .ok (e, rest)) : rest.length < text.length := by
  unfold readEntry at h
  split at h
  · simp at h
  · next hkey =>
    split at h
    · simp at h
    · next hvalue =>
      simp only [Except.ok.injEq, Prod.mk.injEq] at h
      obtain ⟨_, rfl⟩ := h
      have := length_of_readString hkey
      have := length_of_readEntryValue hvalue
      omega

def readNextKey (text : Text) : Except Stop Text :=
  match skipSpace text with
  | '"' :: rest => .ok rest
  | '\x7d' :: rest => .error ⟨.trailingComma, '\x7d' :: rest, 1⟩
  | [] => .error ⟨.endInValue, [], 0⟩
  | other => .error ⟨.keyNotString, other, 1⟩

theorem length_of_readNextKey {text rest : Text} (h : readNextKey text = .ok rest) :
    rest.length < text.length := by
  have hskip := length_skipSpace text
  unfold readNextKey at h
  split at h
  · next heq =>
    simp only [Except.ok.injEq] at h
    subst h
    rw [heq, List.length_cons] at hskip
    omega
  all_goals simp at h

def readMore (text : Text) : Reading (List (Text × Text)) :=
  match _hskip : skipSpace text with
  | '\x7d' :: rest => .ok ([], rest)
  | [] => .error ⟨.endInObject, [], 0⟩
  | ',' :: rest =>
    match _hkey : readNextKey rest with
    | .error stop => .error stop
    | .ok key =>
      match _hentry : readEntry key with
      | .error stop => .error stop
      | .ok (entry, rest) =>
        match readMore rest with
        | .error stop => .error stop
        | .ok (entries, rest) => .ok (entry :: entries, rest)
  | other => .error ⟨.noCommaOrEnd, other, 1⟩
termination_by text.length
decreasing_by
  have := length_of_readNextKey _hkey
  have := length_of_readEntry _hentry
  have := length_skipSpace text
  rw [_hskip] at this
  simp at this; omega

def readEntries (text : Text) : Reading (List (Text × Text)) :=
  match skipSpace text with
  | '\x7d' :: rest => .ok ([], rest)
  | [] => .error ⟨.endInObject, [], 0⟩
  | '"' :: key =>
    match readEntry key with
    | .error stop => .error stop
    | .ok (entry, rest) =>
      match readMore rest with
      | .error stop => .error stop
      | .ok (entries, rest) => .ok (entry :: entries, rest)
  | other => .error ⟨.keyNotString, other, 1⟩

def readObject (text : Text) : Except Stop (List (Text × Text)) :=
  match skipSpace text with
  | [] => .error ⟨.endInValue, [], 0⟩
  | '\x7b' :: rest =>
    match readEntries rest with
    | .error stop => .error stop
    | .ok (entries, rest) =>
      match skipSpace rest with
      | [] => .ok entries
      | other => .error ⟨.trailingCharacters, other, 1⟩
  | other => .error (wrongType .map other)

/-- The entries that a text holds as an object of strings, in the order in which they are written. -/
def entries? (text : Text) : Except Error (List (Text × Text)) :=
  (readObject text).mapError (Error.ofStop text)

end DocTools.Json
