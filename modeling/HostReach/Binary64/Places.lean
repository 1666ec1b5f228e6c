import HostReach.Binary64.Basic

/-!
Decimal texts of absolute values with as many digits as are asked for, rounded to the nearest one, a
half going to the even digit.
-/
namespace HostReach.Binary64

def withPoint (places n : Nat) (keepsPoint : Bool) : List Char :=
  let ds := Decimal.digits n
  let ds := List.replicate (places + 1 - ds.length) '0' ++ ds
  let whole := ds.take (ds.length - places)
  if places == 0 then if keepsPoint then whole ++ ['.'] else whole
  else whole ++ '.' :: ds.drop (ds.length - places)

def fixed (x : Binary64) (places : Nat) (keepsPoint : Bool) : List Char :=
  let (num, den) := x.toRatio
  withPoint places (roundQuotient (num * Nat.pow 10 places) den) keepsPoint

def roundedAt (num den : Nat) : Int → Nat
  | .ofNat k => roundQuotient num (den * Nat.pow 10 k)
  | .negSucc k => roundQuotient (num * Nat.pow 10 (k + 1)) den

def firstDigitExponent (num den : Nat) : Int :=
  if den ≤ num then (Decimal.digits (num / den)).length - 1
  else
    let k := (Decimal.digits (den / num)).length
    if den ≤ num * Nat.pow 10 (k - 1) then -((k - 1 : Nat) : Int) else -(k : Int)

def scientificDigits (x : Binary64) (places : Nat) : Nat × Int :=
  let (num, den) := x.toRatio
  if num == 0 then (0, 0)
  else
    let e := firstDigitExponent num den
    let n := roundedAt num den (e - places)
    if n == Nat.pow 10 (places + 1) then (Nat.pow 10 places, e + 1) else (n, e)

def exponentText (e : Int) : List Char :=
  let ds := Decimal.digits e.natAbs
  'e' :: (if e < 0 then '-' else '+') :: (List.replicate (2 - ds.length) '0' ++ ds)

def scientific (x : Binary64) (places : Nat) (keepsPoint : Bool) : List Char :=
  let (n, e) := x.scientificDigits places
  withPoint places n keepsPoint ++ exponentText e

def trimZeros (t : List Char) : List Char :=
  if t.contains '.' then
    match t.reverse.dropWhile (· == '0') with
    | '.' :: t => t.reverse
    | t => t.reverse
  else t

/-- The absolute value with a number of significant digits, positional unless the exponent is below
-4 or not below that number. Zeros at the end are left out unless the point is kept. -/
def general (x : Binary64) (digits : Nat) (keepsPoint : Bool) : List Char :=
  let digits := max digits 1
  let (n, e) := x.scientificDigits (digits - 1)
  let trimmed (t : List Char) : List Char := if keepsPoint then t else trimZeros t
  if -4 ≤ e && e < digits then trimmed (x.fixed ((digits : Int) - 1 - e).toNat keepsPoint)
  else trimmed (withPoint (digits - 1) n keepsPoint) ++ exponentText e

end HostReach.Binary64
