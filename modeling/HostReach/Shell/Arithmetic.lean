import HostReach.Shell.Word
import HostReach.Text.Decimal

/-!
Integer expressions of 64 bits: the usual operators by precedence, comparisons and logical operators
giving 0 or 1, a choice, and assignments. What a logical operator or a choice leaves out is not
evaluated.
-/
namespace HostReach.Shell.Arithmetic

inductive Binary where
  | mul | div | rem | add | sub | shiftLeft | shiftRight
  | lt | le | gt | ge | eq | ne | bitAnd | bitXor | bitOr
  deriving DecidableEq, Repr

inductive Fault where
  | divisionByZero
  | expecting (what : String)
  | illegalNumber (text : List Char)
  | readOnly (name : List Char)
  deriving DecidableEq, Repr

/-- An expression. A fault in it stands where its text goes wrong, after what is evaluated before
that. -/
inductive Expr where
  | number (n : Int64)
  | variable (name : List Char)
  | assign (name : List Char) (op : Option Binary) (value : Expr)
  | binary (op : Binary) (a b : Expr)
  | both (a b : Expr)
  | either (a b : Expr)
  | choice (condition yes no : Expr)
  | negative (a : Expr)
  | negated (a : Expr)
  | complement (a : Expr)
  | faulty (f : Fault)
  deriving Repr

def Expr.thenFaulty (e : Expr) (f : Fault) : Expr := .binary .add e (.faulty f)

def Expr.fault? : Expr → Option Fault
  | .number _ => none
  | .variable _ => none
  | .assign _ _ e => e.fault?
  | .binary _ a b => a.fault?.or b.fault?
  | .both a b => a.fault?.or b.fault?
  | .either a b => a.fault?.or b.fault?
  | .choice a b c => (a.fault?.or b.fault?).or c.fault?
  | .negative a => a.fault?
  | .negated a => a.fault?
  | .complement a => a.fault?
  | .faulty f => some f

def hexDigit? (c : Char) : Option Nat :=
  if Decimal.isDigit c then some (Decimal.valueOf c)
  else if 'a' ≤ c && c ≤ 'f' then some (c.toNat - 87)
  else if 'A' ≤ c && c ≤ 'F' then some (c.toNat - 55)
  else none

def isDigitOf (base : Nat) (c : Char) : Bool :=
  match hexDigit? c with
  | some d => d < base
  | none => false

def inBase (base : Nat) (ds : List Char) : Nat :=
  ds.foldl (fun n c => base * n + (hexDigit? c).getD 0) 0

def numeral? (decimal : Bool) (t : List Char) : Option (Nat × List Char) :=
  let digits (base : Nat) (t : List Char) : Option (Nat × List Char) :=
    match t.takeWhile (isDigitOf base) with
    | [] => none
    | ds => some (inBase base ds, t.drop ds.length)
  if decimal then digits 10 t
  else
    match t with
    | '0' :: 'x' :: t => (digits 16 t).orElse fun _ => some (0, 'x' :: t)
    | '0' :: 'X' :: t => (digits 16 t).orElse fun _ => some (0, 'X' :: t)
    | '0' :: t => digits 8 ('0' :: t)
    | t => digits 10 t

def isBlank (c : Char) : Bool := c == ' ' || ('\t' ≤ c && c ≤ '\r')

def maxInt : Int := Nat.pow 2 63 - 1

def minInt : Int := -Nat.pow 2 63

def leading? (decimal : Bool) (t : List Char) : Option (Int × List Char) :=
  let signed (t : List Char) (value : Nat → Int) : Option (Int × List Char) :=
    (numeral? decimal t).map fun (n, t) => (value n, t)
  match t.dropWhile isBlank with
  | '-' :: t => signed t fun n => -(n : Int)
  | '+' :: t => signed t fun n => n
  | t => signed t fun n => n

def integer? (decimal : Bool) (t : List Char) : Option Int :=
  match leading? decimal t with
  | some (n, rest) => if rest.all isBlank && minInt ≤ n && n ≤ maxInt then some n else none
  | none => none

/-- The integer that the value of a variable stands for; blank text is zero. -/
def valueOf? (t : List Char) : Option Int64 :=
  if t.all isBlank then some 0 else (integer? false t).map Int64.ofInt

/-- Binary operators with how tightly they bind, longer ones before those that they begin with. -/
def operators : List (String × Binary × Nat) :=
  [("<<", .shiftLeft, 6), (">>", .shiftRight, 6), ("<=", .le, 5), (">=", .ge, 5), ("==", .eq, 4),
    ("!=", .ne, 4), ("<", .lt, 5), (">", .gt, 5), ("*", .mul, 8), ("/", .div, 8), ("%", .rem, 8),
    ("+", .add, 7), ("-", .sub, 7), ("&", .bitAnd, 3), ("^", .bitXor, 2), ("|", .bitOr, 1)]

def skipBlanks (t : List Char) : List Char := t.dropWhile isSeparator

def assignment? (t : List Char) : Option (Option Binary × List Char) :=
  match skipBlanks t with
  | '=' :: '=' :: _ => none
  | '=' :: t => some (none, t)
  | '*' :: '=' :: t => some (some .mul, t)
  | '/' :: '=' :: t => some (some .div, t)
  | '%' :: '=' :: t => some (some .rem, t)
  | '+' :: '=' :: t => some (some .add, t)
  | '-' :: '=' :: t => some (some .sub, t)
  | '<' :: '<' :: '=' :: t => some (some .shiftLeft, t)
  | '>' :: '>' :: '=' :: t => some (some .shiftRight, t)
  | '&' :: '=' :: t => some (some .bitAnd, t)
  | '^' :: '=' :: t => some (some .bitXor, t)
  | '|' :: '=' :: t => some (some .bitOr, t)
  | _ => none

/-- A binary operator at the beginning of a text. One that assigns is none, and the logical ones are
not among these. -/
def operator? (t : List Char) : Option (Binary × Nat × List Char) :=
  let t := skipBlanks t
  if ['&', '&'].isPrefixOf t || ['|', '|'].isPrefixOf t || (assignment? t).isSome then none
  else
    match operators.find? fun (op, _) => op.toList.isPrefixOf t with
    | some (op, b, binding) => some (b, binding, t.drop op.length)
    | none => none

abbrev Parsed := Except Expr (Expr × List Char)

namespace Parsed

def expecting (what : String) : Parsed := .error (.faulty (.expecting what))

def within (p : Parsed) (f : Expr → Expr) : Parsed :=
  match p with
  | .ok (e, t) => .ok (f e, t)
  | .error e => .error (f e)

def andThen (p : Parsed) (f : Expr → List Char → Parsed) : Parsed :=
  match p with
  | .ok (e, t) => f e t
  | .error e => .error e

end Parsed

mutual

def readPrimary (fuel : Nat) (t : List Char) : Parsed :=
  match fuel with
  | 0 => .expecting "primary"
  | fuel + 1 =>
    match skipBlanks t with
    | '-' :: t => (readPrimary fuel t).within .negative
    | '+' :: t => readPrimary fuel t
    | '!' :: t => (readPrimary fuel t).within .negated
    | '~' :: t => (readPrimary fuel t).within .complement
    | '(' :: t =>
      (readExpr fuel t).andThen fun e t =>
        match skipBlanks t with
        | ')' :: t => .ok (e, t)
        | _ => .error (e.thenFaulty (.expecting "')'"))
    | c :: t =>
      if isNameStart c then
        .ok (.variable (c :: t.takeWhile isNameChar), t.dropWhile isNameChar)
      else
        match numeral? false (c :: t) with
        | some (n, t) => .ok (.number (Int64.ofInt (min n maxInt)), t)
        | none => .expecting "primary"
    | [] => .expecting "primary"

def readBinary (fuel least : Nat) (t : List Char) : Parsed :=
  match fuel with
  | 0 => .expecting "primary"
  | fuel + 1 => (readPrimary fuel t).andThen (readBinaryRest fuel least)

def readBinaryRest (fuel least : Nat) (left : Expr) (t : List Char) : Parsed :=
  match fuel with
  | 0 => .expecting "primary"
  | fuel + 1 =>
    match operator? t with
    | none => .ok (left, t)
    | some (op, binding, rest) =>
      if binding < least then .ok (left, t)
      else
        ((readBinary fuel (binding + 1) rest).within (.binary op left)).andThen
          (readBinaryRest fuel least)

def readBoth (fuel : Nat) (t : List Char) : Parsed :=
  match fuel with
  | 0 => .expecting "primary"
  | fuel + 1 =>
    (readBinary fuel 0 t).andThen fun a t =>
      match skipBlanks t with
      | '&' :: '&' :: t => (readBoth fuel t).within (.both a)
      | t => .ok (a, t)

def readEither (fuel : Nat) (t : List Char) : Parsed :=
  match fuel with
  | 0 => .expecting "primary"
  | fuel + 1 =>
    (readBoth fuel t).andThen fun a t =>
      match skipBlanks t with
      | '|' :: '|' :: t => (readEither fuel t).within (.either a)
      | t => .ok (a, t)

def readChoice (fuel : Nat) (t : List Char) : Parsed :=
  match fuel with
  | 0 => .expecting "primary"
  | fuel + 1 =>
    (readEither fuel t).andThen fun a t =>
      match skipBlanks t with
      | '?' :: t =>
        match readExpr fuel t with
        | .error b => .error (.choice a b (.number 0))
        | .ok (b, t) =>
          match skipBlanks t with
          | ':' :: t => (readChoice fuel t).within (.choice a b)
          | _ => .error (.choice a (b.thenFaulty (.expecting "':'")) (.number 0))
      | t => .ok (a, t)

def readExpr (fuel : Nat) (t : List Char) : Parsed :=
  match fuel with
  | 0 => .expecting "primary"
  | fuel + 1 =>
    match skipBlanks t with
    | c :: rest =>
      if isNameStart c then
        match assignment? (rest.dropWhile isNameChar) with
        | some (op, value) =>
          (readExpr fuel value).within (.assign (c :: rest.takeWhile isNameChar) op)
        | none => readChoice fuel (c :: rest)
      else readChoice fuel (c :: rest)
    | [] => readChoice fuel []

end

def parse (t : List Char) : Expr :=
  match readExpr (8 * t.length + 8) t with
  | .error e => e
  | .ok (e, rest) => if (skipBlanks rest).isEmpty then e else e.thenFaulty (.expecting "EOF")

def ofBool (b : Bool) : Int64 := if b then 1 else 0

/-- Division goes toward zero, and a shift takes the amount modulo 64. -/
def Binary.apply (op : Binary) (a b : Int64) : Except Fault Int64 :=
  match op with
  | .mul => .ok (a * b)
  | .div => if b == 0 then .error .divisionByZero else .ok (a / b)
  | .rem => if b == 0 then .error .divisionByZero else .ok (a % b)
  | .add => .ok (a + b)
  | .sub => .ok (a - b)
  | .shiftLeft => .ok (a <<< b)
  | .shiftRight => .ok (a >>> b)
  | .lt => .ok (ofBool (a < b))
  | .le => .ok (ofBool (a ≤ b))
  | .gt => .ok (ofBool (b < a))
  | .ge => .ok (ofBool (b ≤ a))
  | .eq => .ok (ofBool (a == b))
  | .ne => .ok (ofBool (a != b))
  | .bitAnd => .ok (a &&& b)
  | .bitXor => .ok (a ^^^ b)
  | .bitOr => .ok (a ||| b)

/-- What it means not to evaluate an expression: it must still be one. -/
def Expr.skipped (e : Expr) : Except Fault Unit :=
  match e.fault? with
  | some f => .error f
  | none => .ok ()

def Expr.value {σ : Type} (get : σ → List Char → Except Fault Int64)
    (set : σ → List Char → Int64 → Except Fault σ) (s : σ) : Expr → Except Fault (Int64 × σ)
  | .number n => .ok (n, s)
  | .variable name => (get s name).map fun n => (n, s)
  | .assign name op e => do
    let (n, s) ← e.value get set s
    let n ← match op with
      | none => pure n
      | some op => op.apply (← get s name) n
    .ok (n, ← set s name n)
  | .binary op a b => do
    let (m, s) ← a.value get set s
    let (n, s) ← b.value get set s
    .ok (← op.apply m n, s)
  | .both a b => do
    let (m, s) ← a.value get set s
    if m == 0 then b.skipped.map fun _ => (0, s)
    else
      let (n, s) ← b.value get set s
      .ok (ofBool (n != 0), s)
  | .either a b => do
    let (m, s) ← a.value get set s
    if m != 0 then b.skipped.map fun _ => (1, s)
    else
      let (n, s) ← b.value get set s
      .ok (ofBool (n != 0), s)
  | .choice a b c => do
    let (m, s) ← a.value get set s
    if m != 0 then
      let r ← b.value get set s
      c.skipped.map fun _ => r
    else
      b.skipped
      c.value get set s
  | .negative a => (a.value get set s).map fun (n, s) => (-n, s)
  | .negated a => (a.value get set s).map fun (n, s) => (ofBool (n == 0), s)
  | .complement a => (a.value get set s).map fun (n, s) => (~~~n, s)
  | .faulty f => .error f

end HostReach.Shell.Arithmetic
