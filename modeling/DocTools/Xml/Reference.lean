import DocTools.Xml.Cursor

/-! # References

What `&...;` stands for in texts and in attribute values: a character, or the text of an entity,
which may hold references again. References nest ten deep at most, and within one outermost reference
there are at most 255 others. -/
namespace DocTools.Xml
set_option autoImplicit false

inductive Reference where
  | char (c : Char)
  | entity (name : Text)
  deriving DecidableEq, Repr

def deepest : Nat := 10
def mostReferences : Nat := 255

/-- Names and texts of the entities that a document declares; of two with one name the first
counts. -/
abbrev Entities := List (Text × Cursor)

namespace Reference

def builtIn? (name : Text) : Option Char :=
  if name = "quot".toList then some '"'
  else if name = "amp".toList then some '&'
  else if name = "apos".toList then some '\''
  else if name = "lt".toList then some '<'
  else if name = "gt".toList then some '>'
  else none

def digitValue (c : Char) : Nat :=
  if c.isDigit then c.toNat - '0'.toNat
  else if c.isLower then c.toNat - 'a'.toNat + 10
  else c.toNat - 'A'.toNat + 10

def isHexDigit (c : Char) : Bool :=
  c.isDigit || ('a' ≤ c && c ≤ 'f') || ('A' ≤ c && c ≤ 'F')

def number (base : Nat) (digits : Text) : Nat :=
  digits.foldl (fun n c => n * base + digitValue c) 0

/-- The character of a number that fits 32 bits, a replacement character where there is none. -/
def charOfNumber? (digits : Text) (n : Nat) : Option Char :=
  if digits.isEmpty ∨ Nat.pow 2 32 ≤ n then none
  else
    let c := if h : n.isValidChar then Char.ofNatAux n h else '\uFFFD'
    if isAllowed c then some c else none

def digitsAndEnd? (p : Char → Bool) (text : Text) : Option (Text × Text) :=
  match text.dropWhile p with
  | ';' :: rest => some (text.takeWhile p, rest)
  | _ => none

/-- The reference after an ampersand, and what follows its semicolon. -/
def ofText? (text : Text) : Option (Reference × Text) :=
  match text with
  | '#' :: 'x' :: digits =>
    (digitsAndEnd? isHexDigit digits).bind fun p =>
      (charOfNumber? p.1 (number 16 p.1)).map fun c => (.char c, p.2)
  | '#' :: digits =>
    (digitsAndEnd? Char.isDigit digits).bind fun p =>
      (charOfNumber? p.1 (number 10 p.1)).map fun c => (.char c, p.2)
  | c :: _ =>
    if isNameStart c then
      (digitsAndEnd? isNameChar text).map fun p =>
        ((builtIn? p.1).elim (.entity p.1) .char, p.2)
    else none
  | [] => none

theorem length_of_digitsAndEnd? {p : Char → Bool} {text : Text} {r : Text × Text}
    (h : digitsAndEnd? p text = some r) : r.2.length < text.length := by
  have hlen := (List.dropWhile_sublist p (l := text)).length_le
  unfold digitsAndEnd? at h
  split at h
  · next heq =>
    obtain rfl := Option.some.inj h
    rw [heq, List.length_cons] at hlen
    exact hlen
  · simp at h

theorem length_of_ofText? {text rest : Text} {r : Reference} (h : ofText? text = some (r, rest)) :
    rest.length < text.length := by
  unfold ofText? at h
  split at h
  · obtain ⟨p, hp, hc⟩ := Option.bind_eq_some_iff.1 h
    obtain ⟨c, _, hr⟩ := Option.map_eq_some_iff.1 hc
    have := length_of_digitsAndEnd? hp
    simp only [Prod.mk.injEq] at hr
    simp [← hr.2]; omega
  · obtain ⟨p, hp, hc⟩ := Option.bind_eq_some_iff.1 h
    obtain ⟨c, _, hr⟩ := Option.map_eq_some_iff.1 hc
    have := length_of_digitsAndEnd? hp
    simp only [Prod.mk.injEq] at hr
    simp [← hr.2]; omega
  · split at h
    · obtain ⟨p, hp, hr⟩ := Option.map_eq_some_iff.1 h
      have := length_of_digitsAndEnd? hp
      simp only [Prod.mk.injEq] at hr
      rw [← hr.2]; exact this
    · simp at h
  · simp at h

end Reference

/-! ## Counting references -/

/-- One more reference, which ends at an offset, inside an outermost one; `remaining` tells how much
deeper references may nest. -/
def countReference (remaining used offset : Nat) : Scan Nat :=
  if remaining = deepest then .ok used
  else if used = mostReferences then .error ⟨.referenceLoop, offset⟩
  else .ok (used + 1)

/-- The count after a reference has been expanded: it starts again outside all references. -/
def countAfter (remaining used : Nat) : Nat := if remaining = deepest then 0 else used

/-! ## Attribute values -/

/-- What a character of a value becomes: other space than a blank is a blank. -/
def valueChar (c : Char) : Char := if c = '\t' ∨ c = '\n' ∨ c = '\r' then ' ' else c

/-- Expands a value. What an entity in it holds is left to `enter`, together with the offset behind
the reference and the count of references so far. A carriage
return before a newline is left out. Inside an entity no reference to a character may give `<`. -/
def expandValue (entities : Entities) (remaining : Nat)
    (enter : Nat → Cursor → Nat → Scan (Text × Nat)) (text : Text) (offset used : Nat) :
    Scan (Text × Nat) :=
  match text with
  | [] => .ok ([], used)
  | '&' :: after =>
    match _h : Reference.ofText? after with
    | none => .error ⟨.malformedReference, offset⟩
    | some (.char c, rest) => do
      let here := offset + (text.length - rest.length)
      if remaining ≠ deepest ∧ c = '<' then .error ⟨.openTagInValue, offset⟩
      else
        let (tail, used) ← expandValue entities remaining enter rest here used
        return ((if remaining = deepest then c else valueChar c) :: tail, used)
    | some (.entity name, rest) => do
      let here := offset + (text.length - rest.length)
      match entities.lookup name with
      | none => .error ⟨.unknownEntity name, offset⟩
      | some value =>
        let used ← countReference remaining used here
        let (front, used) ← enter here value used
        let (tail, used) ←
          expandValue entities remaining enter rest here (countAfter remaining used)
        return (front ++ tail, used)
  | c :: rest => do
    let (tail, used) ← expandValue entities remaining enter rest (offset + 1) used
    if c = '\r' ∧ rest.head? = some '\n' then return (tail, used)
    else return (valueChar c :: tail, used)
termination_by text.length
decreasing_by
  · have := Reference.length_of_ofText? _h
    simp; omega
  · have := Reference.length_of_ofText? _h
    simp; omega
  · simp

/-- The value at a cursor, in which references may nest `remaining` deep. -/
def valueAt (entities : Entities) : Nat → Cursor → Nat → Scan (Text × Nat)
  | 0, value, used =>
    expandValue entities 0 (fun here _ _ => .error ⟨.referenceLoop, here⟩) value.rest value.offset
      used
  | remaining + 1, value, used =>
    expandValue entities (remaining + 1) (fun _ inner used => valueAt entities remaining inner used)
      value.rest value.offset used

end DocTools.Xml
