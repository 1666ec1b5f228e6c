import HostReach.Binary64.Shortest

/-!
Writing a number with its shortest digits, with a decimal point or with an exponent. What a format
decides is one record.
-/
namespace HostReach.Binary64

structure Layout where
  /-- Whether a number whose first digit has this decimal exponent is written without an
  exponent. -/
  isPositional : Int → Bool
  keepsFraction : Bool
  signsExponent : Bool
  /-- Whether of two shortest decimals that are equally near the greater one is written, not the
  even one. -/
  tieGoesUp : Bool

def zeros (n : Nat) : List Char := List.replicate n '0'

def Layout.positional (f : Layout) (ds : List Char) (e : Int) : List Char :=
  match e with
  | .negSucc k => ['0', '.'] ++ zeros k ++ ds
  | .ofNat k =>
    if ds.length ≤ k + 1 then
      ds ++ zeros (k + 1 - ds.length) ++ if f.keepsFraction then ['.', '0'] else []
    else ds.take (k + 1) ++ '.' :: ds.drop (k + 1)

def Layout.scientific (f : Layout) (ds : List Char) (e : Int) : List Char :=
  let mantissa :=
    match ds with
    | d :: r@(_ :: _) => d :: '.' :: r
    | ds => ds
  let exponent :=
    match e with
    | .negSucc k => '-' :: Decimal.digits (k + 1)
    | .ofNat k => (if f.signsExponent then ['+'] else []) ++ Decimal.digits k
  mantissa ++ 'e' :: exponent

def Layout.write (f : Layout) (x : Binary64) : List Char :=
  let d := x.shortest f.tieGoesUp
  let ds := Decimal.digits d.significand
  let e : Int := d.exponent + ds.length - 1
  (if x.negative then ['-'] else []) ++
    if f.isPositional e then f.positional ds e else f.scientific ds e

end HostReach.Binary64
