import DocTools.Except
import DocTools.Xml.Char
import DocTools.Xml.Error

/-! # Reading a document piece by piece

A cursor is what is left of a document, or of an entity in it, and how many characters of the
document stand before that. The readers here take one small piece off the front, or stop with a
fault at the offset where they found it. -/
namespace DocTools.Xml
set_option autoImplicit false

structure Cursor where
  rest : Text
  offset : Nat
  deriving DecidableEq, Repr

structure Stop where
  fault : Fault
  offset : Nat
  deriving DecidableEq, Repr

abbrev Scan (α : Type) := Except Stop α

namespace Cursor

def stop {α : Type} (c : Cursor) (fault : Fault) : Scan α := .error ⟨fault, c.offset⟩

def atEnd (c : Cursor) : Bool := c.rest.isEmpty

def skip (c : Cursor) (count : Nat) : Cursor := ⟨c.rest.drop count, c.offset + count⟩

def startsWith (c : Cursor) (lead : Text) : Bool := Text.startsWith lead c.rest

def startsWithSpace (c : Cursor) : Bool := c.rest.head?.any isSpace

def skipSpace (c : Cursor) : Cursor := c.skip (c.rest.takeWhile isSpace).length

/-! ## Single pieces -/

def expect (c : Cursor) (x : Char) : Scan Cursor :=
  match c.rest with
  | [] => c.stop .endOfInput
  | y :: _ => if y = x then .ok (c.skip 1) else c.stop (.wrongChar x y)

def needSpace (c : Cursor) : Scan Cursor :=
  match c.rest with
  | [] => c.stop .endOfInput
  | y :: _ => if isSpace y then .ok c.skipSpace else c.stop (.unexpectedChar "a whitespace".toList y)

def quote (c : Cursor) : Scan (Char × Cursor) :=
  match c.rest with
  | [] => c.stop .endOfInput
  | y :: _ =>
    if y = '"' ∨ y = '\'' then .ok (y, c.skip 1) else c.stop (.unexpectedChar "a quote".toList y)

def expectText (c : Cursor) (text : Text) : Scan Cursor :=
  if c.startsWith text then .ok (c.skip text.length) else c.stop (.missingText text)

/-- The first `count` characters, all of which have to be allowed. -/
def take (c : Cursor) (count : Nat) : Scan (Text × Cursor) :=
  let text := c.rest.take count
  match text.dropWhile isAllowed with
  | [] => .ok (text, c.skip count)
  | bad :: _ => .error ⟨.forbiddenChar bad, c.offset + (text.takeWhile isAllowed).length⟩

/-- The characters before the first that satisfies `p`, or all of them. -/
def takeUntil (c : Cursor) (p : Char → Bool) : Scan (Text × Cursor) :=
  c.take (c.rest.takeWhile fun x => !p x).length

/-- The characters before a text, or all of them. -/
def takeBefore (c : Cursor) (text : Text) : Scan (Text × Cursor) :=
  c.take (Text.breakBefore text c.rest).1.length

/-! ## Names -/

def nameRun (c : Cursor) : Text := c.rest.takeWhile isNameChar

def name (c : Cursor) : Scan (Text × Cursor) :=
  if c.rest.head?.any isNameStart then .ok (c.nameRun, c.skip c.nameRun.length)
  else c.stop .badName

/-- A name in two parts, the first of which is empty when there is no colon. -/
structure QName where
  space : Text
  local' : Text
  deriving DecidableEq, Repr

def QName.text (q : QName) : Text := if q.space.isEmpty then q.local' else q.space ++ ':' :: q.local'

/-- The two parts of a run of name characters. Neither may begin with what no name begins with, and
only the first may be empty. -/
def QName.ofRun? (run : Text) : Option QName :=
  let parts : Option QName := match Text.splitOn ':' run with
    | [name] => some ⟨[], name⟩
    | [space, name] => some ⟨space, name⟩
    | _ => none
  parts.filter fun q => q.space.head?.all isNameStart && q.local'.head?.any isNameStart

def qname (c : Cursor) : Scan (QName × Cursor) :=
  match QName.ofRun? c.nameRun with
  | some q => .ok (q, c.skip c.nameRun.length)
  | none => c.stop .badName

/-! ## Larger pieces -/

/-- A name, an equals sign and a quoted value. The value is given as the cursor it stands at. -/
structure RawAttribute where
  name : QName
  value : Cursor
  offset : Nat
  deriving DecidableEq, Repr

def namedValue (c : Cursor) : Scan (RawAttribute × Cursor) := do
  let (name, after) ← c.qname
  let after ← after.skipSpace.expect '='
  let (mark, start) ← after.skipSpace.quote
  let (value, after) ← start.takeUntil fun x => x == mark || x == '<'
  return (⟨name, ⟨value, start.offset⟩, c.offset⟩, ← after.expect mark)

def comment (c : Cursor) : Scan (Text × Cursor) := do
  let (text, after) ← (c.skip 4).takeBefore "-->".toList
  let after ← after.expectText "-->".toList
  if Text.holds ['-', '-'] text || text.getLast? == some '-' then c.stop .dashesInComment
  else return (text, after)

def instruction (c : Cursor) : Scan (Text × Cursor) :=
  if c.startsWith "<?xml ".toList then c.stop .misplacedDeclaration
  else do
    let (target, after) ← (c.skip 2).name
    let (_, after) ← after.skipSpace.takeBefore "?>".toList
    return (target, ← after.expectText "?>".toList)

/-- A quoted text of any characters, given as the cursor it stands at. -/
def quoted (c : Cursor) : Scan (Cursor × Cursor) := do
  let (mark, start) ← c.quote
  let text := start.rest.takeWhile fun x => x != mark
  return (⟨text, start.offset⟩, ← (start.skip text.length).expect mark)

/-! ## What the readers leave

Every reader leaves less than it was given, but for those that may take nothing. -/

@[simp] theorem length_skip (c : Cursor) (count : Nat) :
    (c.skip count).rest.length = c.rest.length - count := List.length_drop

theorem length_skipSpace (c : Cursor) : c.skipSpace.rest.length ≤ c.rest.length := by
  rw [skipSpace, length_skip]; omega

theorem length_of_expect {c after : Cursor} {x : Char} (h : c.expect x = .ok after) :
    after.rest.length < c.rest.length := by
  unfold expect at h
  split at h
  · cases h
  · next heq =>
    split at h
    · cases h
      rw [length_skip, heq, List.length_cons]; omega
    · cases h

theorem length_of_needSpace {c after : Cursor} (h : c.needSpace = .ok after) :
    after.rest.length ≤ c.rest.length := by
  unfold needSpace at h
  split at h
  · cases h
  · split at h
    · cases h
      exact length_skipSpace c
    · cases h

theorem length_of_quote {c after : Cursor} {mark : Char} (h : c.quote = .ok (mark, after)) :
    after.rest.length < c.rest.length := by
  unfold quote at h
  split at h
  · cases h
  · next heq =>
    split at h
    · cases h
      rw [length_skip, heq, List.length_cons]; omega
    · cases h

theorem length_of_startsWith {c : Cursor} {lead : Text} (h : c.startsWith lead = true) :
    lead.length ≤ c.rest.length := by
  unfold startsWith Text.startsWith at h
  obtain ⟨rest, hrest⟩ := Option.isSome_iff_exists.1 h
  rw [Text.length_of_after? hrest]; omega

theorem length_of_expectText {c after : Cursor} {text : Text}
    (h : c.expectText text = .ok after) :
    after.rest.length + text.length ≤ c.rest.length := by
  unfold expectText at h
  split at h
  · next hlead =>
    cases h
    have hlen := length_of_startsWith hlead
    rw [length_skip]; omega
  · cases h

theorem eq_skip_of_take {c after : Cursor} {count : Nat} {text : Text}
    (h : c.take count = .ok (text, after)) : after = c.skip count := by
  simp only [take] at h
  split at h
  · cases h; rfl
  · cases h

theorem length_of_take {c after : Cursor} {count : Nat} {text : Text}
    (h : c.take count = .ok (text, after)) : after.rest.length = c.rest.length - count := by
  rw [eq_skip_of_take h, length_skip]

theorem length_of_takeUntil {c after : Cursor} {p : Char → Bool} {text : Text}
    (h : c.takeUntil p = .ok (text, after)) : after.rest.length ≤ c.rest.length := by
  rw [length_of_take h]; omega

theorem length_of_takeBefore {c after : Cursor} {phrase text : Text}
    (h : c.takeBefore phrase = .ok (text, after)) : after.rest.length ≤ c.rest.length := by
  rw [length_of_take h]; omega

theorem length_of_name {c after : Cursor} {text : Text} (h : c.name = .ok (text, after)) :
    after.rest.length ≤ c.rest.length := by
  unfold name at h
  split at h
  · cases h
    rw [length_skip]; omega
  · cases h

theorem nameRun_ne_nil {c : Cursor} {q : QName} (h : QName.ofRun? c.nameRun = some q) :
    c.nameRun ≠ [] := by
  intro hnil
  rw [hnil] at h
  cases h

theorem length_of_qname {c after : Cursor} {q : QName} (h : c.qname = .ok (q, after)) :
    after.rest.length < c.rest.length := by
  unfold qname at h
  split at h
  · next hrun =>
    cases h
    have hpos := List.length_pos_iff.2 (nameRun_ne_nil hrun)
    have hle : c.nameRun.length ≤ c.rest.length :=
      (List.takeWhile_sublist _).length_le
    rw [length_skip]; omega
  · cases h

theorem length_of_namedValue {c after : Cursor} {raw : RawAttribute}
    (h : c.namedValue = .ok (raw, after)) : after.rest.length < c.rest.length := by
  unfold namedValue at h
  obtain ⟨⟨name, c1⟩, h1, h⟩ := bind_eq_ok.1 h
  obtain ⟨c2, h2, h⟩ := bind_eq_ok.1 h
  obtain ⟨⟨mark, c3⟩, h3, h⟩ := bind_eq_ok.1 h
  obtain ⟨⟨value, c4⟩, h4, h⟩ := bind_eq_ok.1 h
  obtain ⟨c5, h5, h⟩ := bind_eq_ok.1 h
  cases h
  have hname := length_of_qname h1
  have hspace := length_skipSpace c1
  have hequals := length_of_expect h2
  have hspace' := length_skipSpace c2
  have hmark := length_of_quote h3
  have hvalue := length_of_takeUntil h4
  have hend := length_of_expect h5
  omega

theorem length_of_comment {c after : Cursor} {text : Text} (h : c.comment = .ok (text, after)) :
    after.rest.length < c.rest.length := by
  unfold comment at h
  obtain ⟨⟨body, c1⟩, h1, h⟩ := bind_eq_ok.1 h
  obtain ⟨c2, h2, h⟩ := bind_eq_ok.1 h
  split at h
  · cases h
  · cases h
    have hbody := length_of_takeBefore h1
    have hend : after.rest.length + 3 ≤ c1.rest.length := length_of_expectText h2
    rw [length_skip] at hbody
    omega

theorem length_of_instruction {c after : Cursor} {target : Text}
    (h : c.instruction = .ok (target, after)) : after.rest.length < c.rest.length := by
  unfold instruction at h
  split at h
  · cases h
  · obtain ⟨⟨name, c1⟩, h1, h⟩ := bind_eq_ok.1 h
    obtain ⟨⟨body, c2⟩, h2, h⟩ := bind_eq_ok.1 h
    obtain ⟨c3, h3, h⟩ := bind_eq_ok.1 h
    cases h
    have hname := length_of_name h1
    have hspace := length_skipSpace c1
    have hbody := length_of_takeBefore h2
    have hend : after.rest.length + 2 ≤ c2.rest.length := length_of_expectText h3
    rw [length_skip] at hname
    omega

theorem length_of_quoted {c after text : Cursor} (h : c.quoted = .ok (text, after)) :
    after.rest.length < c.rest.length := by
  unfold quoted at h
  obtain ⟨⟨mark, c1⟩, h1, h⟩ := bind_eq_ok.1 h
  obtain ⟨c2, h2, h⟩ := bind_eq_ok.1 h
  cases h
  have hquote := length_of_quote h1
  have hend := length_of_expect h2
  rw [length_skip] at hend
  omega

end Cursor
end DocTools.Xml
