import DocTools.Decimal.Shortest
import DocTools.Json.Error

/-! # Numbers in JSON

A store holds no numbers, but one that stands where a string should is named in the error. Whole
numbers that fit 64 bits are kept. All others become floating point: as many digits as fit 64 bits
are taken as a whole number, which is then multiplied or divided by a power of ten. -/
namespace DocTools.Json
set_option autoImplicit false

abbrev Reading (α : Type) := Except Stop (α × Text)

structure Signed where
  negative : Bool
  value : Binary64

inductive Number where
  | integer (negative : Bool) (magnitude : Nat)
  | float (x : Signed)

/-! ## As text -/

/-- Powers of ten between these are written without an exponent. -/
def leastPositional : Int := -5
def greatestPositional : Int := 15

def exponentText (e : Int) : Text :=
  let digits := Text.ofNat e.natAbs
  (if e < 0 then '-' else '+') :: (if digits.length < 2 then '0' :: digits else digits)

/-- Digits without the zeros at their end, and how many those were. -/
def dropZeros (digits : Text) : Text × Nat :=
  let zeros := digits.reverse.takeWhile (· == '0')
  (digits.take (digits.length - zeros.length), zeros.length)

/-- The shortest text that reads back, with a point or an exponent in it. -/
def floatText (x : Signed) : Text :=
  let sign := if x.negative then ['-'] else []
  if x.value.isZero then sign ++ "0.0".toList
  else
    let d := x.value.shortest
    let (digits, zeros) := dropZeros (Text.ofNat d.digits)
    let exponent : Int := d.exponent + zeros
    let leading : Int := exponent + digits.length - 1
    if leading < leastPositional ∨ greatestPositional < leading then
      let fraction := digits.drop 1
      sign ++ digits.take 1 ++ (if fraction = [] then [] else '.' :: fraction) ++
        'e' :: exponentText leading
    else if 0 ≤ exponent then
      sign ++ digits ++ List.replicate exponent.toNat '0' ++ ".0".toList
    else if 0 ≤ leading then
      sign ++ digits.take (leading.toNat + 1) ++ '.' :: digits.drop (leading.toNat + 1)
    else sign ++ "0.".toList ++ List.replicate ((-leading).toNat - 1) '0' ++ digits

def Number.kind : Number → Kind
  | .integer negative magnitude => .integer negative magnitude
  | .float x => .float (floatText x)

/-! ## Reading -/

def largestWord : Nat := Nat.pow 2 64 - 1
def largestExponent : Nat := Nat.pow 2 31 - 1
def largestPower : Nat := 308

def digit? (c : Char) : Option Nat := if c.isDigit then some (c.toNat - '0'.toNat) else none

/-- Digits put behind a number as long as it does not exceed `limit`: the number, how many digits
were taken, and the rest. -/
def takeDigits (limit : Nat) : Nat → Text → Nat × Nat × Text
  | n, [] => (n, 0, [])
  | n, c :: rest =>
    match digit? c with
    | some d =>
      if limit < n * 10 + d then (n, 0, c :: rest)
      else
        let r := takeDigits limit (n * 10 + d) rest
        (r.1, r.2.1 + 1, r.2.2)
    | none => (n, 0, c :: rest)

/-- Digits that no longer count: how many there are, and the rest. -/
def skipDigits (text : Text) : Nat × Text :=
  let digits := text.takeWhile Char.isDigit
  (digits.length, text.drop digits.length)

def startsWithDigit : Text → Bool
  | c :: _ => c.isDigit
  | [] => false

/-- `significand * 10 ^ exponent`. An exponent below the least power of ten is reached by several
divisions, at most `count` of them. -/
def scale? : Nat → Binary64 → Int → Option Binary64
  | 0, _, _ => some .zero
  | count + 1, x, exponent =>
    if exponent.natAbs ≤ largestPower then do
      let power ← Binary64.powerOfTen? exponent.natAbs
      if 0 ≤ exponent then x.mul? power else x.div? power
    else if x.isZero then some x
    else if 0 ≤ exponent then none
    else do
      let power ← Binary64.powerOfTen? largestPower
      scale? count (← x.div? power) (exponent + largestPower)

def ofParts (negative : Bool) (significand : Nat) (exponent : Int) (rest : Text) :
    Reading Number :=
  match (Binary64.ofNat? significand).bind fun x => scale? 4 x exponent with
  | some x => .ok (.float ⟨negative, x⟩, rest)
  | none => .error ⟨.numberTooLarge, rest, 0⟩

def readExponent (negative : Bool) (significand : Nat) (start : Int) (text : Text) :
    Reading Number :=
  let (below, text) : Bool × Text := match text with
    | '+' :: rest => (false, rest)
    | '-' :: rest => (true, rest)
    | _ => (false, text)
  match text with
  | [] => .error ⟨.endInValue, [], 0⟩
  | c :: _ =>
    if !c.isDigit then .error ⟨.badNumber, text, 1⟩
    else
      let (e, _, rest) := takeDigits largestExponent 0 text
      if startsWithDigit rest then
        if significand ≠ 0 ∧ !below then .error ⟨.numberTooLarge, rest, 1⟩
        else .ok (.float ⟨negative, .zero⟩, (skipDigits rest).2)
      else ofParts negative significand (if below then start - e else start + e) rest

def readTail (negative : Bool) (significand : Nat) (exponent : Int) (text : Text) :
    Reading Number :=
  match text with
  | 'e' :: rest | 'E' :: rest => readExponent negative significand exponent rest
  | _ => ofParts negative significand exponent text

def readFraction (negative : Bool) (significand : Nat) (exponent : Int) (text : Text) :
    Reading Number :=
  let (n, places, rest) := takeDigits largestWord significand text
  if startsWithDigit rest then readTail negative n (exponent - places) (skipDigits rest).2
  else if places = 0 then
    .error (if rest = [] then ⟨.endInValue, [], 0⟩ else ⟨.badNumber, rest, 1⟩)
  else readTail negative n (exponent - places) rest

/-- What follows a whole number: a fraction, an exponent or nothing. -/
def afterDigits (negative : Bool) (n : Nat) (rest : Text) : Reading Number :=
  match rest with
  | '.' :: rest => readFraction negative n 0 rest
  | 'e' :: rest | 'E' :: rest => readExponent negative n 0 rest
  | _ =>
    if !negative then .ok (.integer false n, rest)
    else if n = 0 ∨ Nat.pow 2 63 < n then ofParts true n 0 rest
    else .ok (.integer true n, rest)

def readNumber (negative : Bool) (text : Text) : Reading Number :=
  match text with
  | [] => .error ⟨.endInValue, [], 0⟩
  | '0' :: d :: rest =>
    if d.isDigit then .error ⟨.badNumber, d :: rest, 1⟩ else afterDigits negative 0 (d :: rest)
  | c :: _ =>
    if !c.isDigit then .error ⟨.badNumber, text, 1⟩
    else
      let (n, _, rest) := takeDigits largestWord 0 text
      if startsWithDigit rest then
        let (dropped, rest) := skipDigits rest
        match rest with
        | '.' :: rest => readFraction negative n dropped rest
        | _ => readTail negative n dropped rest
      else afterDigits negative n rest

end DocTools.Json
