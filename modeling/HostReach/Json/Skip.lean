import HostReach.Json.Parser

/-!
Passing over a JSON value that nobody asked for. Only its grammar is checked: nesting, the range of
numbers and the pairing of surrogates are not.
-/
namespace HostReach.Json

def skipEscape : List Char → Except Fault Nat
  | [] => .error (.here .endInText [])
  | 'u' :: t => (readHex t).map fun _ => 5
  | c :: t =>
    match shortEscape? c with
    | some _ => .ok 1
    | none => .error (.next .invalidEscape (c :: t))

/-- Passes a string after its opening quote; the first `skip` characters belong to an escape. -/
def skipString (skip : Nat) : List Char → Except Fault (List Char)
  | [] => .error (.here .endInText [])
  | c :: t =>
    match skip with
    | k + 1 => skipString k t
    | 0 =>
      if c == '\x22' then .ok t
      else if c == '\\' then
        match skipEscape t with
        | .error f => .error f
        | .ok k => skipString k t
      else if c < ' ' then .error (.here .controlCharacter (c :: t))
      else skipString 0 t

def skipExponent (t : List Char) : Except Fault (List Char) :=
  let t :=
    match t with
    | '+' :: t => t
    | '-' :: t => t
    | t => t
  match t with
  | [] => .error (.here .invalidNumber [])
  | c :: t =>
    if Decimal.isDigit c then .ok (t.dropWhile Decimal.isDigit)
    else .error (.next .invalidNumber (c :: t))

def skipAfterInteger (t : List Char) : Except Fault (List Char) :=
  match t with
  | '.' :: t =>
    let rest := t.dropWhile Decimal.isDigit
    if (t.takeWhile Decimal.isDigit).isEmpty then .error (.next .invalidNumber rest)
    else
      match rest with
      | 'e' :: t => skipExponent t
      | 'E' :: t => skipExponent t
      | t => .ok t
  | 'e' :: t => skipExponent t
  | 'E' :: t => skipExponent t
  | t => .ok t

def skipNumber : List Char → Except Fault (List Char)
  | [] => .error (.here .invalidNumber [])
  | '0' :: t =>
    match t with
    | d :: _ => if Decimal.isDigit d then .error (.next .invalidNumber t) else skipAfterInteger t
    | [] => skipAfterInteger []
  | c :: t =>
    if Decimal.isDigit c then skipAfterInteger (t.dropWhile Decimal.isDigit)
    else .error (.next .invalidNumber (c :: t))

def skipNextMember (t : List Char) : Except Fault Next :=
  match skipSpace t with
  | [] => .error (.here .endInObject [])
  | '\x7d' :: t => .ok (.done t)
  | ',' :: t =>
    match skipSpace t with
    | [] => .error (.here .endInObject [])
    | '\x22' :: t => .ok (.more t)
    | t => .error (.next .keyNotText t)
  | t => .error (.next .expectedObjectEnd t)

/-- After an element, a comma or the closing bracket. What follows the comma is left to the reader
of values. -/
def skipNextElement (t : List Char) : Except Fault Next :=
  match skipSpace t with
  | [] => .error (.here .endInList [])
  | ']' :: t => .ok (.done t)
  | ',' :: t => .ok (.more t)
  | t => .error (.next .expectedListEnd t)

mutual

def skipValue (fuel : Nat) (t : List Char) : Except Fault (List Char) :=
  match fuel with
  | 0 => .error (.here .endInValue t)
  | fuel + 1 =>
    match skipSpace t with
    | [] => .error (.here .endInValue [])
    | 'n' :: t => readWord ['u', 'l', 'l'] t
    | 't' :: t => readWord ['r', 'u', 'e'] t
    | 'f' :: t => readWord ['a', 'l', 's', 'e'] t
    | '-' :: t => skipNumber t
    | '\x22' :: t => skipString 0 t
    | '[' :: t =>
      match firstElement t with
      | .error f => .error f
      | .ok (.done t) => .ok t
      | .ok (.more t) => skipElements fuel t
    | '\x7b' :: t =>
      match firstMember t with
      | .error f => .error f
      | .ok (.done t) => .ok t
      | .ok (.more t) => skipMembers fuel t
    | c :: t =>
      if Decimal.isDigit c then skipNumber (c :: t)
      else .error (.next .expectedValue (c :: t))

def skipElements (fuel : Nat) (t : List Char) : Except Fault (List Char) :=
  match fuel with
  | 0 => .error (.here .endInList t)
  | fuel + 1 =>
    match skipValue fuel t with
    | .error f => .error f
    | .ok t =>
      match skipNextElement t with
      | .error f => .error f
      | .ok (.done t) => .ok t
      | .ok (.more t) => skipElements fuel t

def skipMembers (fuel : Nat) (t : List Char) : Except Fault (List Char) :=
  match fuel with
  | 0 => .error (.here .endInObject t)
  | fuel + 1 =>
    match skipString 0 t with
    | .error f => .error f
    | .ok t =>
      match readColon t with
      | .error f => .error f
      | .ok t =>
        match skipValue fuel t with
        | .error f => .error f
        | .ok t =>
          match skipNextMember t with
          | .error f => .error f
          | .ok (.done t) => .ok t
          | .ok (.more t) => skipMembers fuel t

end

def skip (t : List Char) : Except Fault (List Char) := skipValue (fuelFor t) t

end HostReach.Json
