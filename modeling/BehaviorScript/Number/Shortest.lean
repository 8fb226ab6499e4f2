import BehaviorScript.Number.Binary64

/-!
# Shortest decimal text

The shortest decimal that reads back as a given binary64 value. The reals
that round to a value `m * 2 ^ q` form an interval around it; of the
multiples of the greatest power of ten that has one in this interval,
`Magnitude.shortest` takes the one nearest to the value.

`DecimalLayout` says how the digits are set out.
-/

namespace BehaviorScript

namespace Magnitude

/-- The ends of the interval of reals that round to a value, and the
value itself, in units of `2 ^ (exponent - 2)`. The lower half is half as
wide under a power of two. -/
def interval (m : Magnitude) : Nat × Nat × Nat :=
  let below := if m.mantissa = Nat.pow 2 52 ∧ -1074 < m.exponent then 1 else 2
  (4 * m.mantissa - below, 4 * m.mantissa, 4 * m.mantissa + 2)

/-- The multiple of `10 ^ k` in the interval that lies nearest to the
value, divided by `10 ^ k`. The ends belong to the interval of an even
mantissa. -/
def multipleWithin? (m : Magnitude) (k : Int) : Option Nat :=
  let (low, mid, high) := m.interval
  let e := m.exponent - 2
  let unit := Nat.pow 2 e.toNat * Nat.pow 10 (-k).toNat
  let step := Nat.pow 2 (-e).toNat * Nat.pow 10 k.toNat
  let inside (n : Nat) : Bool :=
    if m.mantissa % 2 = 0 then low * unit ≤ n * step && n * step ≤ high * unit
    else low * unit < n * step && n * step < high * unit
  let below := mid * unit / step
  let nearest := roundDiv (mid * unit) step
  let other := if nearest = below then below + 1 else below
  if inside nearest then some nearest
  else if inside other then some other
  else none

/-- Digits and exponent of the shortest decimal, tried from the greatest
power of ten that the format can need down to the least. -/
def shortest (m : Magnitude) : Nat × Int :=
  ((List.range 660).findSome? fun (i : Nat) =>
    let k : Int := 310 - i
    (m.multipleWithin? k).map fun digits => (digits, k)).getD (0, 0)

end Magnitude

/-- Which exponents are set out positionally. Outside of them one digit
stands before the point, and the exponent follows with its sign. -/
structure DecimalLayout where
  leastPositional : Int
  greatestPositional : Int

namespace DecimalLayout

def fraction (digits : List Char) : List Char :=
  if digits.isEmpty then ['0'] else digits

/-- Writes `digits * 10 ^ exponent`, always with a fraction where it is
positional. -/
def write (layout : DecimalLayout) (digits : Nat) (exponent : Int) : String :=
  let ds := (toString digits).toList
  let lead : Int := ds.length - 1 + exponent
  if layout.leastPositional ≤ lead ∧ lead ≤ layout.greatestPositional then
    if 0 ≤ lead then
      let width := lead.toNat + 1
      let whole := ds.take width ++ List.replicate (width - ds.length) '0'
      String.ofList (whole ++ '.' :: fraction (ds.drop width))
    else
      String.ofList ('0' :: '.' :: List.replicate ((-lead).toNat - 1) '0' ++ ds)
  else
    let point := if ds.length = 1 then ds else ds.take 1 ++ '.' :: ds.drop 1
    let sign := if 0 ≤ lead then "+" else "-"
    String.ofList point ++ "e" ++ sign ++ toString lead.natAbs

end DecimalLayout

/-- The text of a value: its sign, and its shortest digits as `layout`
sets them out. -/
def Binary64.text (layout : DecimalLayout) (d : Binary64) : String :=
  let sign := if d.negative then "-" else ""
  if d.magnitude.isZero then sign ++ "0.0"
  else
    let (digits, exponent) := d.magnitude.shortest
    sign ++ layout.write digits exponent

end BehaviorScript
