import DocTools.Text.Basic

/-! # UTF-8

Reading bytes as text. The decoder walks the bytes once and keeps the sequence it is in the middle
of; what can not be part of a sequence is given up as one ill-formed stretch, as long as possible.
Bytes that hold no such stretch are text; any bytes can be read with a replacement character for each
of them. -/
namespace DocTools.Utf8
set_option autoImplicit false

/-- A sequence that has begun: the continuation bytes still to come, the bounds of the next one and
the number read so far. -/
structure Begun where
  missing : Nat
  low : UInt8
  high : UInt8
  value : Nat

inductive Lead where
  | single (c : Char)
  | opens (b : Begun)
  | illFormed

/-- The first byte fixes the length and, against overlong forms, surrogates and numbers that are too
large, the bounds of the second byte. -/
def lead (b : UInt8) : Lead :=
  if b < 0x80 then .single (Char.ofNat b.toNat)
  else if b < 0xC2 then .illFormed
  else if b < 0xE0 then .opens ⟨1, 0x80, 0xBF, b.toNat - 0xC0⟩
  else if b < 0xF0 then
    .opens ⟨2, if b = 0xE0 then 0xA0 else 0x80, if b = 0xED then 0x9F else 0xBF, b.toNat - 0xE0⟩
  else if b < 0xF5 then
    .opens ⟨3, if b = 0xF0 then 0x90 else 0x80, if b = 0xF4 then 0x8F else 0xBF, b.toNat - 0xF0⟩
  else .illFormed

/-- The characters of the bytes, `none` for each ill-formed stretch. -/
def decodeFrom : Option Begun → List UInt8 → List (Option Char)
  | none, [] => []
  | some _, [] => [none]
  | none, b :: rest =>
    match lead b with
    | .single c => some c :: decodeFrom none rest
    | .opens begun => decodeFrom (some begun) rest
    | .illFormed => none :: decodeFrom none rest
  | some s, b :: rest =>
    if s.low ≤ b ∧ b ≤ s.high then
      let value := s.value * 64 + (b.toNat - 0x80)
      if s.missing ≤ 1 then some (Char.ofNat value) :: decodeFrom none rest
      else decodeFrom (some ⟨s.missing - 1, 0x80, 0xBF, value⟩) rest
    else
      match lead b with
      | .single c => none :: some c :: decodeFrom none rest
      | .opens begun => none :: decodeFrom (some begun) rest
      | .illFormed => none :: none :: decodeFrom none rest

def decode (bytes : List UInt8) : List (Option Char) := decodeFrom none bytes

def text? (bytes : List UInt8) : Option Text := (decode bytes).mapM id

/-- The text of any bytes, with a replacement character for each ill-formed stretch. -/
def textWithReplacements (bytes : List UInt8) : Text := (decode bytes).map (·.getD '\uFFFD')

def encode (text : Text) : List UInt8 := text.flatMap String.utf8EncodeChar

def size : Text → Nat
  | [] => 0
  | c :: rest => c.utf8Size + size rest

theorem size_append (a b : Text) : size (a ++ b) = size a + size b := by
  induction a with
  | nil => exact (Nat.zero_add _).symm
  | cons c a ih => rw [List.cons_append, size, size, ih, Nat.add_assoc]

end DocTools.Utf8
