import HostReach.Binary64.Places
import HostReach.Shell.Signal

/-!
The two commands that print: `echo`, and `printf` with its formats.
-/
namespace HostReach.Shell

def octalDigit? (c : Char) : Option Nat := if '0' ≤ c && c ≤ '7' then some (c.toNat - 48) else none

def octal : Nat → List Char → Nat → Char × List Char
  | 0, t, n => (Char.ofNat (n % 256), t)
  | count + 1, c :: t, n =>
    match octalDigit? c with
    | some d => octal count t (8 * n + d)
    | none => (Char.ofNat (n % 256), c :: t)
  | _ + 1, [], n => (Char.ofNat (n % 256), [])

def letterEscape? : Char → Option Char
  | 'a' => some '\x07'
  | 'b' => some '\x08'
  | 'e' => some '\x1b'
  | 'f' => some '\x0c'
  | 'n' => some '\n'
  | 'r' => some '\r'
  | 't' => some '\t'
  | 'v' => some '\x0b'
  | '\\' => some '\\'
  | _ => none

def escape? (inFormat : Bool) (t : List Char) : Option (List Char × List Char) :=
  match t with
  | [] => some (['\\'], [])
  | c :: rest =>
    if c == 'c' && !inFormat then none
    else
      match letterEscape? c with
      | some d => some ([d], rest)
      | none =>
        if (octalDigit? c).isSome then
          let (d, rest) := octal 3 (if c == '0' && !inFormat then rest else c :: rest) 0
          some ([d], rest)
        else some (['\\'], c :: rest)

def unescape (fuel : Nat) (t : List Char) : List Char × Bool :=
  match fuel with
  | 0 => ([], false)
  | fuel + 1 =>
    match t with
    | [] => ([], false)
    | '\\' :: t =>
      match escape? false t with
      | none => ([], true)
      | some (u, rest) =>
        let (more, ends) := unescape fuel rest
        (u ++ more, ends)
    | c :: t =>
      let (more, ends) := unescape fuel t
      (c :: more, ends)

def echo (s : State) (args : List (List Char)) : State :=
  let (newline, args) :=
    match args with
    | ['-', 'n'] :: args => (false, args)
    | args => (true, args)
  let t := [' '].intercalate args
  let (t, ends) := unescape (t.length + 1) t
  (s.print (if newline && !ends then t ++ ['\n'] else t)).withStatus 0

structure Directive where
  flags : List Char
  width : Nat
  precision : Option Nat
  deriving DecidableEq, Repr

namespace Directive

def has (d : Directive) (flag : Char) : Bool := d.flags.contains flag

def pad (d : Directive) (t : List Char) : List Char :=
  let blanks := List.replicate (d.width - t.length) ' '
  if d.has '-' then t ++ blanks else blanks ++ t

/-- A number brought to the width, with its sign or what else stands in front of the digits. -/
def padNumber (d : Directive) (front digits : List Char) (zeros : Bool) : List Char :=
  if zeros && d.has '0' && !d.has '-' then
    front ++ List.replicate (d.width - front.length - digits.length) '0' ++ digits
  else d.pad (front ++ digits)

def sign (d : Directive) (negative : Bool) : List Char :=
  if negative then ['-'] else if d.has '+' then ['+'] else if d.has ' ' then [' '] else []

def digits (d : Directive) (base n : Nat) : List Char :=
  let ds := if n == 0 && d.precision == some 0 then [] else Nat.toDigits base n
  List.replicate (d.precision.getD 0 - ds.length) '0' ++ ds

def integer (d : Directive) (n : Int) : List Char :=
  d.padNumber (d.sign (n < 0)) (d.digits 10 n.natAbs) d.precision.isNone

/-- An integer without a sign; a negative one counts from 2 to the power of 64 down. -/
def unsigned (d : Directive) (base : Nat) (front : List Char) (n : Int) : List Char :=
  let n := (n % Nat.pow 2 64).toNat
  let ds := d.digits base n
  let front := if d.has '#' && n != 0 then front else []
  let ds := if d.has '#' && base == 8 && ds.head? != some '0' then '0' :: ds else ds
  d.padNumber front ds d.precision.isNone

end Directive

/-- A number that an argument stands for, and what is wrong with the argument. A quote stands before
a character whose code is meant. -/
def numberOf (arg : List Char) : Int × Option (List Char) :=
  match arg with
  | '\x27' :: t => ((t.headD '\x00').toNat, none)
  | '\x22' :: t => ((t.headD '\x00').toNat, none)
  | [] => (0, none)
  | arg =>
    match Arithmetic.leading? false arg with
    | none => (0, some (arg ++ ": expected numeric value".toList))
    | some (n, rest) =>
      if !rest.isEmpty then (n, some (arg ++ ": not completely converted".toList))
      else if n < Arithmetic.minInt then
        (Arithmetic.minInt, some (arg ++ ": Numerical result out of range".toList))
      else if Arithmetic.maxInt < n then
        (Arithmetic.maxInt, some (arg ++ ": Numerical result out of range".toList))
      else (n, none)

def readReal? (t : List Char) : Option (Binary64 × List Char) :=
  let (negative, t) := match t with
    | '-' :: t => (true, t)
    | '+' :: t => (false, t)
    | t => (false, t)
  let whole := t.takeWhile Decimal.isDigit
  let t := t.drop whole.length
  let (fraction, t) := match t with
    | '.' :: u =>
      let ds := u.takeWhile Decimal.isDigit
      if whole.isEmpty && ds.isEmpty then ([], t) else (ds, u.drop ds.length)
    | t => ([], t)
  if whole.isEmpty && fraction.isEmpty then none
  else
    let (e, t) := match t with
      | c :: u =>
        let (minus, ds) := match u with
          | '-' :: ds => (true, ds)
          | '+' :: ds => (false, ds)
          | ds => (false, ds)
        let ds := ds.takeWhile Decimal.isDigit
        if (c == 'e' || c == 'E') && !ds.isEmpty then
          let signs := match u with
            | '-' :: _ => 1
            | '+' :: _ => 1
            | _ => 0
          let n : Int := min (Decimal.toNat ds) 400
          (if minus then -n else n, u.drop (signs + ds.length))
        else (0, t)
      | [] => (0, [])
    let n := Decimal.toNat (whole ++ fraction)
    let e := e - fraction.length
    let x := if e < 0 then Binary64.ofRatio negative n (Nat.pow 10 e.natAbs)
      else Binary64.ofRatio negative (n * Nat.pow 10 e.natAbs) 1
    x.map fun x => (x, t)

def realOf (arg : List Char) : Binary64 × Option (List Char) :=
  let ofCode (c : Char) : Binary64 := (Binary64.ofNat false c.toNat).getD (.zero false)
  match arg with
  | '\x27' :: t => (ofCode (t.headD '\x00'), none)
  | '\x22' :: t => (ofCode (t.headD '\x00'), none)
  | [] => (.zero false, none)
  | arg =>
    match readReal? (arg.dropWhile Arithmetic.isBlank) with
    | none => (.zero false, some (arg ++ ": expected numeric value".toList))
    | some (x, []) => (x, none)
    | some (x, _) => (x, some (arg ++ ": not completely converted".toList))

/-- What a format has given so far, the last character first, and the arguments that are left. -/
structure Printed where
  text : List Char := []
  args : List (List Char)
  ends : Bool := false
  warnings : List (List Char) := []
  fault : Option (List Char) := none

def Printed.add (p : Printed) (t : List Char) : Printed := { p with text := t.reverse ++ p.text }

def Printed.take (p : Printed) : List Char × Printed :=
  (p.args.headD [], { p with args := p.args.tail })

def readCount (t : List Char) (p : Printed) : Option Int × List Char × Printed :=
  match t with
  | '*' :: t =>
    let (arg, p) := p.take
    (some (numberOf arg).1, t, p)
  | t =>
    let ds := t.takeWhile Decimal.isDigit
    (if ds.isEmpty then none else some (Decimal.toNat ds : Int), t.drop ds.length, p)

def convert? (d : Directive) (c : Char) (p : Printed) : Option Printed :=
  let (arg, p) := p.take
  let number (f : Int → List Char) : Option Printed :=
    let (n, warning) := numberOf arg
    some { p.add (f n) with warnings := p.warnings ++ warning.toList }
  let real (digits : Binary64 → List Char) : Option Printed :=
    let (x, warning) := realOf arg
    some { p.add (d.padNumber (d.sign x.negative) (digits x) true) with
      warnings := p.warnings ++ warning.toList }
  match c with
  | 's' => some (p.add (d.pad (match d.precision with
      | some n => arg.take n
      | none => arg)))
  | 'b' =>
    let (t, ends) := unescape (arg.length + 1) arg
    let t := match d.precision with
      | some n => t.take n
      | none => t
    some { p.add (d.pad t) with ends }
  | 'c' => some (p.add (d.pad [arg.headD '\x00']))
  | 'd' => number d.integer
  | 'i' => number d.integer
  | 'u' => number (d.unsigned 10 [])
  | 'o' => number (d.unsigned 8 [])
  | 'x' => number (d.unsigned 16 ['0', 'x'])
  | 'X' => number fun n => (d.unsigned 16 ['0', 'x'] n).map Char.toUpper
  | 'f' => real fun x => x.fixed (d.precision.getD 6) (d.has '#')
  | 'F' => real fun x => x.fixed (d.precision.getD 6) (d.has '#')
  | 'e' => real fun x => x.scientific (d.precision.getD 6) (d.has '#')
  | 'E' => real fun x => (x.scientific (d.precision.getD 6) (d.has '#')).map Char.toUpper
  | 'g' => real fun x => x.general (d.precision.getD 6) (d.has '#')
  | 'G' => real fun x => (x.general (d.precision.getD 6) (d.has '#')).map Char.toUpper
  | _ => none

def directive (t : List Char) (p : Printed) : List Char × Printed :=
  let begin := t
  let flags := t.takeWhile fun c => "-0+ #".toList.contains c
  let (width, t, p) := readCount (t.drop flags.length) p
  let (precision, t, p) :=
    match t with
    | '.' :: t =>
      let (n, t, p) := readCount t p
      (some ((n.getD 0).toNat), t, p)
    | t => (none, t, p)
  let width := width.getD 0
  let d : Directive := ⟨if width < 0 then '-' :: flags else flags, width.natAbs, precision⟩
  match t with
  | [] => ([], { p with fault := some "missing format character".toList })
  | c :: t =>
    match convert? d c p with
    | some p => (t, p)
    | none =>
      let written := begin.take (begin.length - t.length)
      (t, { p with fault := some ('%' :: written ++ ": invalid directive".toList) })

def formatOnce (fuel : Nat) (t : List Char) (p : Printed) : Printed :=
  match fuel with
  | 0 => p
  | fuel + 1 =>
    if p.ends || p.fault.isSome then p
    else
      match t with
      | [] => p
      | '\\' :: t =>
        match escape? true t with
        | none => { p with ends := true }
        | some (u, rest) => formatOnce fuel rest (p.add u)
      | '%' :: '%' :: t => formatOnce fuel t (p.add ['%'])
      | '%' :: t =>
        let (t, p) := directive t p
        formatOnce fuel t p
      | c :: t => formatOnce fuel t (p.add [c])

/-- A format gone through until no argument is left, at least once. -/
def formatAll (fuel : Nat) (format : List Char) (p : Printed) : Printed :=
  match fuel with
  | 0 => p
  | fuel + 1 =>
    let q := formatOnce (format.length + 1) format p
    if q.ends || q.fault.isSome || q.args.isEmpty || q.args.length == p.args.length then q
    else formatAll fuel format q

/-- Prints by a format. Messages come before the output, which is held back to the end. -/
def printf (s : State) (args : List (List Char)) : State :=
  withOptions "" (fun _ args s =>
    match args with
    | [] => s.failText "usage: printf format [arg ...]"
    | format :: args =>
      let p := formatAll (args.length + 1) format { args }
      let s := p.warnings.foldl (fun s w => s.warn w) s
      let s := match p.fault with
        | none => s
        | some message => s.fail message
      let t := p.text.reverse
      let s := s.print t
      if p.fault.isSome then s else s.withStatus (if p.warnings.isEmpty then 0 else 1)) s args

end HostReach.Shell
