import HostReach.Json.Fault

/-!
The smallest parts of JSON text: white space, the three words, numbers and strings. Each reader
takes the text that is left and gives what it read with the text after it.
-/
namespace HostReach.Json

def isSpace (c : Char) : Bool := c == ' ' || c == '\n' || c == '\t' || c == '\r'

def skipSpace (t : List Char) : List Char := t.dropWhile isSpace

def readWord : List Char → List Char → Except Fault (List Char)
  | [], t => .ok t
  | _ :: _, [] => .error (.here .endInValue [])
  | w :: ws, c :: t => if c == w then readWord ws t else .error ⟨.expectedIdent, c :: t, 1⟩

/-- A number as it is written: an integer that fits 64 bits, or binary64. -/
inductive Number where
  | int (n : Int)
  | real (x : Binary64)
  deriving DecidableEq, Repr

def Number.found : Number → Found
  | .int n => .int n
  | .real x => .real x

def Number.value : Number → Value
  | .int n => .int n
  | .real x => .real x

/-- Digits appended to a significand while it fits 64 bits, and the digits that are left. -/
def fitDigits : Nat → List Char → Nat × List Char
  | n, [] => (n, [])
  | n, c :: ds =>
    if 10 * n + Decimal.valueOf c < Nat.pow 2 64 then fitDigits (10 * n + Decimal.valueOf c) ds
    else (n, c :: ds)

def significand (ds fs : List Char) : Nat × Int :=
  let (n, dropped) := fitDigits 0 ds
  let (n, ignored) := fitDigits n fs
  (n, (dropped.length : Int) - (fs.length - ignored.length))

/-- An integer literal. Minus zero and what does not fit 64 bits are binary64. -/
def Number.ofInteger (negative : Bool) (ds : List Char) : Option Number :=
  let n := Decimal.toNat ds
  if negative && n != 0 && n ≤ Nat.pow 2 63 then some (.int (-n))
  else if !negative && n < Nat.pow 2 64 then some (.int n)
  else
    let (n, scale) := significand ds []
    (Binary64.ofParts negative n scale).map .real

def realOr (rest : List Char) : Option Binary64 → Read Number
  | some x => .ok (.real x, rest)
  | none => .error (.here .numberOutOfRange rest)

/-- The digits of an exponent, and the text after them. An exponent beyond 31 bits gives only the
text after the digit that went too far. -/
def readExponentDigits : Nat → List Char → Option Nat × List Char
  | n, [] => (some n, [])
  | n, c :: t =>
    if Decimal.isDigit c then
      if Nat.pow 2 31 ≤ 10 * n + Decimal.valueOf c then (none, t)
      else readExponentDigits (10 * n + Decimal.valueOf c) t
    else (some n, c :: t)

def readExponent (negative : Bool) (n : Nat) (scale : Int) (t : List Char) : Read Number :=
  let (down, t) :=
    match t with
    | '+' :: t => (false, t)
    | '-' :: t => (true, t)
    | t => (false, t)
  match t with
  | [] => .error (.here .endInValue [])
  | c :: r =>
    if Decimal.isDigit c then
      match readExponentDigits 0 (c :: r) with
      | (some e, rest) =>
        let power : Int := if down then -e else e
        realOr rest (Binary64.ofParts negative n (scale + power))
      | (none, rest) =>
        if n != 0 && !down then .error (.here .numberOutOfRange rest)
        else .ok (.real (.zero negative), rest.dropWhile Decimal.isDigit)
    else .error ⟨.invalidNumber, c :: r, 1⟩

def readAfterDigits (negative : Bool) (ds fs t : List Char) : Read Number :=
  let (n, scale) := significand ds fs
  match t with
  | 'e' :: t => readExponent negative n scale t
  | 'E' :: t => readExponent negative n scale t
  | t => realOr t (Binary64.ofParts negative n scale)

def readAfterInteger (negative : Bool) (ds t : List Char) : Read Number :=
  match t with
  | '.' :: t =>
    let fs := t.takeWhile Decimal.isDigit
    let rest := t.dropWhile Decimal.isDigit
    match fs, rest with
    | [], [] => .error (.here .endInValue [])
    | [], rest => .error (.next .invalidNumber rest)
    | fs, rest => readAfterDigits negative ds fs rest
  | 'e' :: t => readAfterDigits negative ds [] ('e' :: t)
  | 'E' :: t => readAfterDigits negative ds [] ('E' :: t)
  | t =>
    match Number.ofInteger negative ds with
    | some n => .ok (n, t)
    | none => .error (.here .numberOutOfRange t)

def readNumber (negative : Bool) : List Char → Read Number
  | [] => .error (.here .endInValue [])
  | '0' :: t =>
    match t with
    | d :: _ =>
      if Decimal.isDigit d then .error (.next .invalidNumber t)
      else readAfterInteger negative ['0'] t
    | [] => readAfterInteger negative ['0'] []
  | c :: t =>
    if Decimal.isDigit c then
      readAfterInteger negative (c :: t.takeWhile Decimal.isDigit) (t.dropWhile Decimal.isDigit)
    else .error ⟨.invalidNumber, c :: t, 1⟩

def hexValue? (c : Char) : Option Nat :=
  if Decimal.isDigit c then some (Decimal.valueOf c)
  else if 'a' ≤ c && c ≤ 'f' then some (c.toNat - 87)
  else if 'A' ≤ c && c ≤ 'F' then some (c.toNat - 55)
  else none

def readHex (t : List Char) : Except Fault Nat :=
  if Utf8.size (t.take 4) < 4 then .error (.here .endInText [])
  else
    match (t.take 4).mapM hexValue? with
    | some [a, b, c, d] => .ok (((a * 16 + b) * 16 + c) * 16 + d)
    | _ => .error ⟨.invalidEscape, t, 4⟩

def isHighSurrogate (n : Nat) : Bool := 0xD800 ≤ n && n ≤ 0xDBFF
def isLowSurrogate (n : Nat) : Bool := 0xDC00 ≤ n && n ≤ 0xDFFF

def shortEscape? : Char → Option Char
  | '\x22' => some '\x22'
  | '\\' => some '\\'
  | '/' => some '/'
  | 'b' => some '\x08'
  | 'f' => some '\x0c'
  | 'n' => some '\n'
  | 'r' => some '\r'
  | 't' => some '\t'
  | _ => none

/-- The second half of a surrogate pair, of which `high` is the first: the character, and the number
of characters that the half takes. -/
def readLowSurrogate (high : Nat) : List Char → Except Fault (Char × Nat)
  | [] => .error (.here .endInText [])
  | '\\' :: t =>
    match t with
    | [] => .error (.here .endInText [])
    | 'u' :: t => do
      let low ← readHex t
      if isLowSurrogate low then
        .ok (Char.ofNat ((high - 0xD800) * 1024 + (low - 0xDC00) + 0x10000), 6)
      else .error (.here .loneSurrogate (t.drop 4))
    | t => .error (.next .unpairedSurrogate t)
  | t => .error (.next .unpairedSurrogate t)

def readEscape : List Char → Except Fault (Char × Nat)
  | [] => .error (.here .endInText [])
  | 'u' :: t => do
    let n ← readHex t
    if isLowSurrogate n then .error (.here .loneSurrogate (t.drop 4))
    else if isHighSurrogate n then
      let (c, k) ← readLowSurrogate n (t.drop 4)
      .ok (c, k + 5)
    else .ok (Char.ofNat n, 5)
  | c :: t =>
    match shortEscape? c with
    | some e => .ok (e, 1)
    | none => .error (.next .invalidEscape (c :: t))

/-- The characters of a string up to its closing quote. The first `skip` characters of the text
belong to an escape that has been read. -/
def readText (skip : Nat) : List Char → Read (List Char)
  | [] => .error (.here .endInText [])
  | c :: t =>
    match skip with
    | k + 1 => readText k t
    | 0 =>
      if c == '\x22' then .ok ([], t)
      else if c == '\\' then
        match readEscape t with
        | .error f => .error f
        | .ok (e, k) =>
          match readText k t with
          | .error f => .error f
          | .ok (cs, rest) => .ok (e :: cs, rest)
      else if c < ' ' then .error (.here .controlCharacter t)
      else
        match readText 0 t with
        | .error f => .error f
        | .ok (cs, rest) => .ok (c :: cs, rest)

def readString (t : List Char) : Read String :=
  (readText 0 t).map fun (cs, rest) => (String.ofList cs, rest)

end HostReach.Json
