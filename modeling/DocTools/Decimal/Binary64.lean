/-! # Numbers in 64-bit binary floating point

A finite number that is not negative, as a mantissa times a power of two, and rounding a fraction to
the nearest such number. -/
namespace DocTools
set_option autoImplicit false

/-- The number `mantissa * 2 ^ exponent`. The mantissa has 53 bits, or fewer at the least exponent. -/
structure Binary64 where
  mantissa : Nat
  exponent : Int
  deriving DecidableEq, Repr

namespace Binary64

def leastExponent : Int := -1074
def greatestExponent : Int := 971

def zero : Binary64 := ⟨0, leastExponent⟩

def isZero (x : Binary64) : Bool := x.mantissa == 0

/-- `2 ^ e` as a numerator and a denominator. -/
def power (e : Int) : Nat × Nat := if 0 ≤ e then (Nat.pow 2 e.toNat, 1) else (1, Nat.pow 2 (-e).toNat)

def fraction (x : Binary64) : Nat × Nat :=
  let p := power x.exponent
  (x.mantissa * p.1, p.2)

/-- A quotient rounded to the nearest whole number, a tie to the even one. -/
def nearest (numerator denominator : Nat) : Nat :=
  let quotient := numerator / denominator
  let twice := 2 * (numerator % denominator)
  if twice < denominator then quotient
  else if denominator < twice then quotient + 1
  else quotient + quotient % 2

/-- The number nearest to a fraction, of two the even one; none when it is too large. -/
def round? (numerator denominator : Nat) : Option Binary64 :=
  if numerator = 0 then some zero
  else
    let guess : Int := (numerator.log2 : Int) - (denominator.log2 : Int) - 52
    let tooHigh (e : Int) : Bool :=
      let p := power e
      numerator * p.2 < denominator * p.1 * Nat.pow 2 52
    let exponent := max leastExponent (if tooHigh guess then guess - 1 else guess)
    let p := power exponent
    let mantissa := nearest (numerator * p.2) (denominator * p.1)
    let rounded : Binary64 :=
      if mantissa = Nat.pow 2 53 then ⟨Nat.pow 2 52, exponent + 1⟩ else ⟨mantissa, exponent⟩
    if greatestExponent < rounded.exponent then none else some rounded

def ofNat? (n : Nat) : Option Binary64 := round? n 1

def mul? (x y : Binary64) : Option Binary64 :=
  round? (x.fraction.1 * y.fraction.1) (x.fraction.2 * y.fraction.2)

def div? (x y : Binary64) : Option Binary64 :=
  round? (x.fraction.1 * y.fraction.2) (x.fraction.2 * y.fraction.1)

def powerOfTen? (n : Nat) : Option Binary64 := round? (Nat.pow 10 n) 1

end Binary64
end DocTools
