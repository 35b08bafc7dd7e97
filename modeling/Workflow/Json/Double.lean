/-
Workflow.Json.Double — the finite binary64 numbers, as exact values.

A `Double` is a sign, a mantissa and a power of two, so that rounding,
comparison and printing are arithmetic on `Nat`:

* `Double.ofRatio` rounds a quotient to the nearest double, a tie to the
  even mantissa.
* `Double.ofDecimal` reads a digit string with a power of ten. The
  digits and the power are rounded first, and their product or quotient
  once more.
* `Double.digits` gives the shortest decimal that rounds to the number,
  and of two such the nearer one.
-/
namespace Workflow

/-- The finite number `mantissa * 2 ^ exponent`, negated if `negative`.
Rounding keeps the mantissa below `2 ^ 53` and the exponent between
`-1074` and `971`, and the mantissa at least `2 ^ 52` unless the exponent
is the least one. -/
structure Double where
  negative : Bool
  mantissa : Nat
  exponent : Int
deriving DecidableEq, Repr, Inhabited

namespace Double

/-- The least exponent of a double. -/
def minExponent : Int := -1074

/-- The greatest exponent of a finite double. -/
def maxExponent : Int := 971

def zero : Double := ⟨false, 0, minExponent⟩

def isZero (d : Double) : Bool := d.mantissa == 0

/-- The same number: positive and negative zero are one value with two
signs, and every other number has one form. -/
def sameValue (a b : Double) : Bool := a == b || (a.isZero && b.isZero)

def negate (d : Double) : Double := { d with negative := !d.negative }

/-! ## Rounding -/

/-- The quotient rounded to the nearest natural number, a tie to the even
one. -/
def roundDiv (num den : Nat) : Nat :=
  let q := num / den
  let r := num % den
  if 2 * r < den then q
  else if den < 2 * r then q + 1
  else if q % 2 = 0 then q else q + 1

/-- `num / den` in units of `2 ^ e`, as a quotient again. -/
def inUnits (num den : Nat) (e : Int) : Nat × Nat :=
  if 0 ≤ e then (num, den * Nat.pow 2 e.toNat) else (num * Nat.pow 2 (-e).toNat, den)

/-- The nearest double to a positive quotient; `none` if it is too large
for a finite one. -/
def ofRatio (num den : Nat) : Option Double :=
  if num = 0 then some zero
  else
    let guess : Int := Nat.log2 num - Nat.log2 den - 53
    let (n, d) := inUnits num den guess
    let fitted := if n / d < Nat.pow 2 53 then guess else guess + 1
    let e := max fitted minExponent
    let (n, d) := inUnits num den e
    let m := roundDiv n d
    let (m, e) := if m = Nat.pow 2 53 then (Nat.pow 2 52, e + 1) else (m, e)
    if maxExponent < e then none else some ⟨false, m, e⟩

/-- The absolute value, as a quotient. -/
def ratio (d : Double) : Nat × Nat :=
  if 0 ≤ d.exponent then (d.mantissa * Nat.pow 2 d.exponent.toNat, 1)
  else (d.mantissa, Nat.pow 2 (-d.exponent).toNat)

/-- The rounded product of two absolute values. -/
def mul (a b : Double) : Option Double :=
  ofRatio (a.ratio.1 * b.ratio.1) (a.ratio.2 * b.ratio.2)

/-- The rounded quotient of two absolute values. -/
def div (a b : Double) : Option Double :=
  ofRatio (a.ratio.1 * b.ratio.2) (a.ratio.2 * b.ratio.1)

/-! ## Reading decimals -/

/-- The greatest power of ten that is a finite double. -/
def maxPower : Nat := 308

/-- The double nearest to a power of ten. -/
def powerOfTen (k : Nat) : Option Double := ofRatio (Nat.pow 10 k) 1

/-- Divides by `10 ^ k`, at most `maxPower` at a time. -/
def scaleDown (d : Double) (k : Nat) : Option Double :=
  if d.isZero then some d
  else if k ≤ maxPower then do d.div (← powerOfTen k)
  else do
    let d ← d.div (← powerOfTen maxPower)
    scaleDown d (k - maxPower)
termination_by k
decreasing_by
  have : 0 < maxPower := by decide
  omega

/-- Multiplies by `10 ^ k`. -/
def scaleUp (d : Double) (k : Nat) : Option Double :=
  if k ≤ maxPower then do d.mul (← powerOfTen k)
  else if d.isZero then some d else none

/-- The double written as `digits * 10 ^ power`; `none` if it is too
large. -/
def ofDecimal (negative : Bool) (digits : Nat) (power : Int) : Option Double := do
  let d ← ofRatio digits 1
  let d ← if 0 ≤ power then d.scaleUp power.toNat else d.scaleDown (-power).toNat
  return { d with negative }

/-! ## Writing decimals -/

/-- The reals that round to a positive double, in units of a quarter of
its last place: lower end, value, upper end. The lower neighbour of a
power of two is at half the distance. -/
def interval (d : Double) : Nat × Nat × Nat :=
  let v := 4 * d.mantissa
  let below := if d.mantissa = Nat.pow 2 52 ∧ minExponent < d.exponent then 1 else 2
  (v - below, v, v + 2)

/-- The multiple of `10 ^ p` nearest to the number among those that round
to it. -/
def multipleAt (d : Double) (p : Int) : Option Nat :=
  let (lo, v, hi) := d.interval
  let e := d.exponent - 2
  let unit := Nat.pow 2 e.toNat
  let step := Nat.pow 10 p.toNat * Nat.pow 2 (-e).toNat
  let unit := unit * Nat.pow 10 (-p).toNat
  let inside (s : Nat) : Bool :=
    if d.mantissa % 2 = 0 then lo * unit ≤ s * step && s * step ≤ hi * unit
    else lo * unit < s * step && s * step < hi * unit
  let s := v * unit / step
  let nearest := roundDiv (v * unit) step
  if inside nearest then some nearest
  else if inside s then some s
  else if inside (s + 1) then some (s + 1)
  else none

/-- A power of ten above the number: its decimal length, at most two too
large. -/
def magnitude (d : Double) : Int :=
  ((Nat.log2 d.mantissa : Int) + d.exponent) * 30103 / 100000 + 2

/-- The shortest decimal that rounds to a nonzero double: the coarsest
grid of powers of ten with a point in the interval. Twenty grids from the
magnitude downward reach the seventeen digits that always suffice. -/
def digits (d : Double) : Nat × Int :=
  ((List.range 20).findSome? fun (i : Nat) =>
    let p := d.magnitude - i
    (d.multipleAt p).map (·, p)).getD (0, 0)

/-- Digits with a decimal point after the first `point` of them. -/
def placed (ds : List Char) (point : Int) : String :=
  if point ≤ 0 then "0." ++ String.ofList (List.replicate (-point).toNat '0' ++ ds)
  else
    let n := point.toNat
    let whole := ds.take n ++ List.replicate (n - ds.length) '0'
    let rest := ds.drop n
    String.ofList whole ++ "." ++ (if rest.isEmpty then "0" else String.ofList rest)

/-- The number as text. It always shows a point or an exponent; numbers
from `10 ^ 16` on and below `10 ^ -5` are written with an exponent. -/
def text (d : Double) : String :=
  let sign := if d.negative then "-" else ""
  if d.isZero then sign ++ "0.0"
  else
    let (m, p) := d.digits
    let ds := Nat.toDigits 10 m
    let point := (ds.length : Int) + p
    if -5 < point ∧ point ≤ 16 then sign ++ placed ds point
    else
      let mark := if 0 < point then "e+" else "e-"
      let size := (point - 1).natAbs
      let shown := match ds with
        | [c] => String.ofList [c]
        | c :: cs => String.ofList (c :: '.' :: cs)
        | [] => ""
      sign ++ shown ++ mark ++ toString size

end Double

end Workflow
