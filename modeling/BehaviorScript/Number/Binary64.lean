/-!
# Finite binary64 values

The finite values of the 64-bit binary floating-point format, held
exactly as a sign and a magnitude `mantissa * 2 ^ exponent`. Arithmetic
is exact on ratios and rounded once at the end, to the nearest value and
to the even one of two (`Magnitude.ofRatio?`); a result above the range
of the format is `none`.

`Magnitude.ofDecimal?` is the value a decimal literal denotes in a
document: the significand is rounded first and then scaled by rounded
powers of ten.
-/

namespace BehaviorScript

/-- `mantissa * 2 ^ exponent`. The exponent is least possible, that is
`-1074` or with a mantissa of full width. -/
structure Magnitude where
  mantissa : Nat
  exponent : Int
deriving DecidableEq, Repr

/-- A finite binary64 value. Zero has two signs. -/
structure Binary64 where
  negative : Bool
  magnitude : Magnitude
deriving DecidableEq, Repr

/-! ## Rounding -/

/-- `a / b` to the nearest whole number, a half to the even one. -/
def roundDiv (a b : Nat) : Nat :=
  let q := a / b
  let r := a % b
  if 2 * r < b then q
  else if b < 2 * r then q + 1
  else q + q % 2

namespace Magnitude

def zero : Magnitude := ⟨0, -1074⟩

def isZero (m : Magnitude) : Bool := m.mantissa == 0

/-- The value over a common denominator: numerator and denominator. -/
def ratio (m : Magnitude) : Nat × Nat :=
  (m.mantissa * Nat.pow 2 m.exponent.toNat, Nat.pow 2 (-m.exponent).toNat)

/-- The exponent that leaves the quotient `num / den` 53 binary digits,
or the least exponent of the format. -/
def exponentFor (num den : Nat) : Int :=
  let e := max (-1074) ((num.log2 : Int) - den.log2 - 53)
  if num * Nat.pow 2 (-e).toNat / (den * Nat.pow 2 e.toNat) < Nat.pow 2 53 then e else e + 1

/-- The value nearest to `num / den`, or `none` above the range. -/
def ofRatio? (num den : Nat) : Option Magnitude :=
  if num = 0 then some zero
  else
    let e := exponentFor num den
    let m := roundDiv (num * Nat.pow 2 (-e).toNat) (den * Nat.pow 2 e.toNat)
    let rounded : Magnitude := if m < Nat.pow 2 53 then ⟨m, e⟩ else ⟨m / 2, e + 1⟩
    if rounded.exponent ≤ 971 then some rounded else none

def mul? (a b : Magnitude) : Option Magnitude :=
  ofRatio? (a.ratio.1 * b.ratio.1) (a.ratio.2 * b.ratio.2)

def div? (a b : Magnitude) : Option Magnitude :=
  ofRatio? (a.ratio.1 * b.ratio.2) (a.ratio.2 * b.ratio.1)

/-! ## Decimal literals -/

/-- The value nearest to `10 ^ k`; there is none above `10 ^ 308`. -/
def powTen? (k : Nat) : Option Magnitude :=
  if k ≤ 308 then ofRatio? (Nat.pow 10 k) 1 else none

/-- Divides `n` times by the greatest power of ten. -/
def divGreatest? (m : Magnitude) : Nat → Option Magnitude
  | 0 => some m
  | n + 1 =>
    if m.isZero then some m
    else match (powTen? 308).bind m.div? with
      | some q => divGreatest? q n
      | none => none

/-- Divides by `10 ^ k` for a positive `k`, at most `10 ^ 308` at a time
and the rest last. -/
def divTen? (m : Magnitude) (k : Nat) : Option Magnitude :=
  (m.divGreatest? ((k - 1) / 308)).bind fun q => (powTen? ((k - 1) % 308 + 1)).bind q.div?

/-- Multiplies by `10 ^ k`; a power above `10 ^ 308` is out of range
for every value but zero. -/
def mulTen? (m : Magnitude) (k : Nat) : Option Magnitude :=
  if m.isZero then some m else (powTen? k).bind m.mul?

/-- The value read for `significand * 10 ^ exponent`: the significand is
rounded, then scaled. -/
def ofDecimal? (significand : Nat) (exponent : Int) : Option Magnitude :=
  (ofRatio? significand 1).bind fun m =>
    if 0 ≤ exponent then m.mulTen? exponent.toNat else m.divTen? (-exponent).toNat

/-! ## Comparison with whole numbers -/

/-- Has no fraction. -/
def isWhole (m : Magnitude) : Bool := m.ratio.1 % m.ratio.2 == 0

/-- Is greater than `n`. -/
def exceeds (m : Magnitude) (n : Nat) : Bool := n * m.ratio.2 < m.ratio.1

/-- Is less than `n`. -/
def isBelow (m : Magnitude) (n : Nat) : Bool := m.ratio.1 < n * m.ratio.2

end Magnitude

namespace Binary64

/-- The value nearest to `hundredths / 100`. -/
def ofHundredths (hundredths : Nat) : Binary64 :=
  ⟨false, (Magnitude.ofRatio? hundredths 100).getD Magnitude.zero⟩

def isWhole (d : Binary64) : Bool := d.magnitude.isWhole

/-- Is greater than `n`. -/
def exceeds (d : Binary64) (n : Nat) : Bool := !d.negative && d.magnitude.exceeds n

/-- Is less than `n`; neither zero is below zero. -/
def isBelow (d : Binary64) (n : Nat) : Bool :=
  if d.negative then 0 < n || !d.magnitude.isZero else d.magnitude.isBelow n

end Binary64

end BehaviorScript
