/-!
Decimal numerals of natural numbers and integers, and reading bounded numerals with the reason of a
refusal.
-/
namespace HostReach.Decimal

def isDigit (c : Char) : Bool := '0' ≤ c && c ≤ '9'

def valueOf (c : Char) : Nat := c.toNat - 48

def digits (n : Nat) : List Char := Nat.toDigits 10 n

def ofNat (n : Nat) : String := String.ofList (digits n)

def ofInt (n : Int) : String :=
  match n with
  | .ofNat n => ofNat n
  | .negSucc n => "-" ++ ofNat (n + 1)

def toNat (ds : List Char) : Nat := ds.foldl (fun n c => 10 * n + valueOf c) 0

inductive Fault where
  | empty
  | invalidDigit
  | tooLarge
  deriving DecidableEq, Repr

def Fault.message : Fault → String
  | .empty => "cannot parse integer from empty string"
  | .invalidDigit => "invalid digit found in string"
  | .tooLarge => "number too large to fit in target type"

/-- Appends digits to `n`; the first fault from the left wins, and at one character a strange digit
wins over an overflow. -/
def readDigits (limit : Nat) : Nat → List Char → Except Fault Nat
  | n, [] => .ok n
  | n, c :: t =>
    if !isDigit c then .error .invalidDigit
    else if limit ≤ 10 * n + valueOf c then .error .tooLarge
    else readDigits limit (10 * n + valueOf c) t

/-- A numeral below `limit`: digits, with at most one plus sign before them. -/
def readBelow (limit : Nat) (t : List Char) : Except Fault Nat :=
  match t with
  | [] => .error .empty
  | ['+'] => .error .invalidDigit
  | '+' :: t => readDigits limit 0 t
  | t => readDigits limit 0 t

end HostReach.Decimal
