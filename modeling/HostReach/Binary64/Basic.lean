import HostReach.Text.Decimal

/-!
Finite binary64 numbers as exact values: a sign and `mantissa · 2 ^ exponent`. Everything is integer
arithmetic, and the one rounding rule is to the nearest number, a tie going to the even mantissa.
-/
namespace HostReach

/-- In normal form the mantissa is below `2 ^ 53`, the exponent is at least `-1074`, and the
mantissa reaches `2 ^ 52` unless the exponent is that least one. -/
structure Binary64 where
  negative : Bool
  mantissa : Nat
  exponent : Int
  deriving DecidableEq, Repr

namespace Binary64

def leastExponent : Int := -1074
def greatestExponent : Int := 971

def zero (negative : Bool) : Binary64 := ⟨negative, 0, leastExponent⟩

/-- The quotient rounded to the nearest natural number, a half going to the even neighbour. -/
def roundQuotient (num den : Nat) : Nat :=
  let q := num / den
  let r := num % den
  if 2 * r < den then q
  else if den < 2 * r then q + 1
  else q + q % 2

def scaled (num den : Nat) : Int → Nat × Nat
  | .ofNat k => (num, den * Nat.pow 2 k)
  | .negSucc k => (num * Nat.pow 2 (k + 1), den)

def exponentFor (num den : Nat) : Int :=
  let guess : Int := (num.log2 : Int) - (den.log2 : Int) - 52
  let (n, d) := scaled num den guess
  max leastExponent (if n / d < Nat.pow 2 52 then guess - 1 else guess)

/-- The number nearest to `num / den`; none when that is beyond the largest finite number. -/
def ofRatio (negative : Bool) (num den : Nat) : Option Binary64 :=
  if num == 0 then some (zero negative)
  else
    let q := exponentFor num den
    let (n, d) := scaled num den q
    let m := roundQuotient n d
    let (m, q) := if m == Nat.pow 2 53 then (Nat.pow 2 52, q + 1) else (m, q)
    if greatestExponent < q then none else some ⟨negative, m, q⟩

def toRatio (x : Binary64) : Nat × Nat :=
  match x.exponent with
  | .ofNat k => (x.mantissa * Nat.pow 2 k, 1)
  | .negSucc k => (x.mantissa, Nat.pow 2 (k + 1))

def addMagnitudes (x y : Binary64) : Option Binary64 :=
  let (a, b) := x.toRatio
  let (c, d) := y.toRatio
  ofRatio false (a * d + c * b) (b * d)

def mulMagnitude (x y : Binary64) : Option Binary64 :=
  let (a, b) := x.toRatio
  let (c, d) := y.toRatio
  ofRatio x.negative (a * c) (b * d)

def divMagnitude (x y : Binary64) : Option Binary64 :=
  let (a, b) := x.toRatio
  let (c, d) := y.toRatio
  ofRatio x.negative (a * d) (b * c)

def ofNat (negative : Bool) (n : Nat) : Option Binary64 := ofRatio negative n 1

def powerOfTen (k : Nat) : Binary64 := (ofNat false (Nat.pow 10 k)).getD (zero false)

def maxPowerOfTen : Nat := 308

/-- A number multiplied or divided by a power of ten, each step rounded. Division by more than the
largest power takes several steps; `fuel` bounds them, and a nonzero 64-bit number is zero after
three. -/
def scaleByTen (fuel : Nat) (x : Binary64) (e : Int) : Option Binary64 :=
  match e with
  | .ofNat k =>
    if k ≤ maxPowerOfTen then x.mulMagnitude (powerOfTen k)
    else if x.mantissa == 0 then some x
    else none
  | .negSucc k =>
    if k < maxPowerOfTen then x.divMagnitude (powerOfTen (k + 1))
    else if x.mantissa == 0 then some x
    else
      match fuel with
      | 0 => some (zero x.negative)
      | fuel + 1 =>
        (x.divMagnitude (powerOfTen maxPowerOfTen)).bind fun y =>
          y.scaleByTen fuel (e + maxPowerOfTen)

/-- The number read from a significand and a power of ten: the significand is rounded, and so is the
result of scaling it. -/
def ofParts (negative : Bool) (significand : Nat) (exponent : Int) : Option Binary64 :=
  (ofNat negative significand).bind fun x => x.scaleByTen 4 exponent

end Binary64

end HostReach
