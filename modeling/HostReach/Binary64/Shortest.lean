import HostReach.Binary64.Basic

/-!
The fewest decimal digits that read back as the same binary64 number, and of those the nearest to
it. For one digit, two digits and so on, the two neighbours of the value on that decimal grid are
tried against the interval of reals that round to the number.
-/
namespace HostReach.Binary64

structure Decimal10 where
  significand : Nat
  exponent : Int
  deriving DecidableEq, Repr

/-- Powers with negative exponents, cleared from both sides of a comparison. -/
structure Scale where
  /-- Factor of a count of quarter units `2 ^ (exponent - 2)`. -/
  quarter : Nat
  /-- Factor of a count of grid steps `10 ^ step`. -/
  grid : Nat

def scaleAt (exponent step : Int) : Scale where
  quarter := Nat.pow 2 (exponent - 2).toNat * Nat.pow 10 (-step).toNat
  grid := Nat.pow 10 step.toNat * Nat.pow 2 (2 - exponent).toNat

/-- Whether `count` grid steps round to `x`: not below the middle towards the number before it, not
above the middle towards the number after it, the middles included for an even mantissa. -/
def readsBack (x : Binary64) (s : Scale) (count : Nat) : Bool :=
  let below := if x.mantissa == Nat.pow 2 52 && leastExponent < x.exponent then 1 else 2
  let low := (4 * x.mantissa - below) * s.quarter
  let high := (4 * x.mantissa + 2) * s.quarter
  let v := count * s.grid
  if x.mantissa % 2 == 0 then low ≤ v && v ≤ high else low < v && v < high

def onGrid (tieGoesUp : Bool) (x : Binary64) (step : Int) : Option Decimal10 :=
  let s := scaleAt x.exponent step
  let value := 4 * x.mantissa * s.quarter
  let j := value / s.grid
  let lower := readsBack x s j
  let upper := readsBack x s (j + 1)
  let above := 2 * (value - j * s.grid)
  let lowerIsNearer := above < s.grid || (above == s.grid && !tieGoesUp && j % 2 == 0)
  if lower && (lowerIsNearer || !upper) then some ⟨j, step⟩
  else if upper then some ⟨j + 1, step⟩
  else none

def leadingExponent (x : Binary64) : Int :=
  let guess : Int := ((x.mantissa.log2 : Int) + x.exponent) * 30103 / 100000
  let reaches (e : Int) : Bool :=
    let s := scaleAt x.exponent e
    s.grid ≤ 4 * x.mantissa * s.quarter
  if reaches (guess + 1) then guess + 1 else if reaches guess then guess else guess - 1

def stripZeros (fuel : Nat) (d : Decimal10) : Decimal10 :=
  match fuel with
  | 0 => d
  | fuel + 1 =>
    if d.significand % 10 == 0 && d.significand != 0 then
      stripZeros fuel ⟨d.significand / 10, d.exponent + 1⟩
    else d

/-- The shortest decimal of a number's absolute value; seventeen digits always suffice. -/
def shortest (tieGoesUp : Bool) (x : Binary64) : Decimal10 :=
  if x.mantissa == 0 then ⟨0, 0⟩
  else
    let e := leadingExponent x
    match (List.range 17).findSome? fun (n : Nat) => onGrid tieGoesUp x (e - n) with
    | some d => stripZeros 18 d
    | none => ⟨0, 0⟩

end HostReach.Binary64
