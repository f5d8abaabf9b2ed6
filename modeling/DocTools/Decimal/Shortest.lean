import DocTools.Decimal.Binary64

/-! # The shortest decimal

The fewest decimal digits that still read back as the number, and among those the nearest to it.
They are looked for on ever finer decimal grids; on each only the two points next to the number have
to be tried. -/
namespace DocTools.Binary64
set_option autoImplicit false

/-- A decimal `digits * 10 ^ exponent`. -/
structure Decimal where
  digits : Nat
  exponent : Int
  deriving DecidableEq, Repr

def Decimal.fraction (d : Decimal) : Nat × Nat :=
  if 0 ≤ d.exponent then (d.digits * Nat.pow 10 d.exponent.toNat, 1)
  else (d.digits, Nat.pow 10 (-d.exponent).toNat)

/-- The fractions between which everything rounds to the number. They lie half way to its
neighbours, and the one below is nearer where the mantissa is the least with 53 bits. -/
def bounds (x : Binary64) : (Nat × Nat) × (Nat × Nat) :=
  let p := power (x.exponent - 2)
  let below := if x.mantissa = Nat.pow 2 52 ∧ leastExponent < x.exponent then 1 else 2
  (((4 * x.mantissa - below) * p.1, p.2), ((4 * x.mantissa + 2) * p.1, p.2))

def readsBack (x : Binary64) (d : Decimal) : Bool :=
  let (low, high) := x.bounds
  let f := d.fraction
  if x.mantissa % 2 = 0 then low.1 * f.2 ≤ f.1 * low.2 && f.1 * high.2 ≤ high.1 * f.2
  else low.1 * f.2 < f.1 * low.2 && f.1 * high.2 < high.1 * f.2

/-- The exponent of the first decimal digit of a fraction that is not zero. -/
def leadingExponent (numerator denominator : Nat) : Int :=
  if denominator ≤ numerator then ((Nat.toDigits 10 (numerator / denominator)).length : Int) - 1
  else
    let places := (Nat.toDigits 10 (denominator / numerator)).length
    if denominator ≤ numerator * Nat.pow 10 (places - 1) then 1 - (places : Int) else -(places : Int)

/-- The better of the two neighbours on the grid of a step, if either reads back. -/
def onGrid? (x : Binary64) (step : Int) : Option Decimal :=
  let (n, d) := x.fraction
  let unit : Decimal := ⟨1, step⟩
  let (un, ud) := unit.fraction
  let quotient := n * ud / (d * un)
  let remainder := n * ud % (d * un)
  let low : Decimal := ⟨quotient, step⟩
  let high : Decimal := ⟨quotient + 1, step⟩
  let lowFirst := 2 * remainder < d * un || (2 * remainder == d * un && quotient % 2 == 0)
  if lowFirst then
    if x.readsBack low then some low else if x.readsBack high then some high else none
  else
    if x.readsBack high then some high else if x.readsBack low then some low else none

/-- The shortest decimal of a number that is not zero, found with at most `count` more digits. -/
def shortestFrom (x : Binary64) : Nat → Int → Decimal
  | 0, step => (x.onGrid? step).getD ⟨0, step⟩
  | count + 1, step =>
    match x.onGrid? step with
    | some d => d
    | none => shortestFrom x count (step - 1)

def shortest (x : Binary64) : Decimal :=
  shortestFrom x 16 (leadingExponent x.fraction.1 x.fraction.2)

end DocTools.Binary64
