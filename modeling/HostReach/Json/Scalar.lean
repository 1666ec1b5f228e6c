import HostReach.Json.Skip

/-!
Reading a value of one wanted type. A value of another type is refused by what it is, and a scalar
is read to its end for that, so a fault inside it is found first.
-/
namespace HostReach.Json

def mismatch (expected : String) (t : List Char) : Fault :=
  let found (what : Found) (rest : List Char) : Fault := .here (.wrongType what expected) rest
  let word (ws : List Char) (what : Found) (t : List Char) : Fault :=
    match readWord ws t with
    | .error f => f
    | .ok rest => found what rest
  let number (negative : Bool) (t : List Char) : Fault :=
    match readNumber negative t with
    | .error f => f
    | .ok (n, rest) => found n.found rest
  match t with
  | 'n' :: t => word ['u', 'l', 'l'] .null t
  | 't' :: t => word ['r', 'u', 'e'] (.bool true) t
  | 'f' :: t => word ['a', 'l', 's', 'e'] (.bool false) t
  | '-' :: t => number true t
  | '\x22' :: t =>
    match readString t with
    | .error f => f
    | .ok (s, rest) => found (.text s) rest
  | '[' :: t => found .sequence ('[' :: t)
  | '\x7b' :: t => found .map ('\x7b' :: t)
  | c :: t => if Decimal.isDigit c then number false (c :: t) else .next .expectedValue (c :: t)
  | [] => .next .expectedValue []

def Number.within (expected : String) (low high : Int) (rest : List Char) : Number → Read Int
  | .int n =>
    if low ≤ n && n ≤ high then .ok (n, rest)
    else .error (.here (.wrongValue (.int n) expected) rest)
  | .real x => .error (.here (.wrongType (.real x) expected) rest)

def readInt (expected : String) (low high : Int) (t : List Char) : Read Int :=
  let bounded (r : Read Number) : Read Int :=
    match r with
    | .error f => .error f
    | .ok (n, rest) => n.within expected low high rest
  match skipSpace t with
  | [] => .error (.here .endInValue [])
  | '-' :: t => bounded (readNumber true t)
  | c :: t =>
    if Decimal.isDigit c then bounded (readNumber false (c :: t))
    else .error (mismatch expected (c :: t))

def readBool (t : List Char) : Read Bool :=
  match skipSpace t with
  | [] => .error (.here .endInValue [])
  | 't' :: t => (readWord ['r', 'u', 'e'] t).map fun t => (true, t)
  | 'f' :: t => (readWord ['a', 'l', 's', 'e'] t).map fun t => (false, t)
  | t => .error (mismatch "a boolean" t)

def readTextOf (expected : String) (t : List Char) : Read String :=
  match skipSpace t with
  | [] => .error (.here .endInValue [])
  | '\x22' :: t => readString t
  | t => .error (mismatch expected t)

def readOptional {α : Type} (reader : List Char → Read α) (t : List Char) : Read (Option α) :=
  match skipSpace t with
  | 'n' :: t => (readWord ['u', 'l', 'l'] t).map fun t => (none, t)
  | t => (reader t).map fun (a, t) => (some a, t)

def closeList (t : List Char) : Except Fault (List Char) :=
  match skipSpace t with
  | [] => .error (.here .endInList [])
  | ']' :: t => .ok t
  | ',' :: t =>
    match skipSpace t with
    | ']' :: t => .error (.next .trailingComma (']' :: t))
    | t => .error (.next .trailingCharacters t)
  | t => .error (.next .trailingCharacters t)

def readTextsFrom (fuel : Nat) (t : List Char) : Read (List String) :=
  match fuel with
  | 0 => .error (.here .endInList t)
  | fuel + 1 =>
    match readTextOf "a string" t with
    | .error f => .error f
    | .ok (s, t) =>
      match nextElement t with
      | .error f => .error f
      | .ok (.done t) => .ok ([s], t)
      | .ok (.more t) => (readTextsFrom fuel t).map fun (ss, t) => (s :: ss, t)

def readTexts (levels : Nat) (t : List Char) : Read (List String) :=
  match skipSpace t with
  | [] => .error (.here .endInValue [])
  | '[' :: t =>
    if levels == 0 then .error (.next .tooDeep ('[' :: t))
    else
      match firstElement t with
      | .error f => .error f
      | .ok (.done t) => .ok ([], t)
      | .ok (.more t) => readTextsFrom (t.length + 1) t
  | t => .error (mismatch "a sequence" t)

def readName (t : List Char) : Read String :=
  match skipSpace t with
  | [] => .error (.here .endInObject [])
  | '\x22' :: t => readString t
  | t => .error (.next .keyNotText t)

/-- One of some names, alone or as the only key of an object whose value is `null`. -/
def readVariant {α : Type} (known : List (String × α)) (levels : Nat) (t : List Char) : Read α :=
  let select (name : String) (rest : List Char) : Except Fault α :=
    match known.lookup name with
    | some a => .ok a
    | none => .error (.here (.unknownVariant name (known.map (·.1))) rest)
  match skipSpace t with
  | [] => .error (.here .endInValue [])
  | '\x22' :: t =>
    match readString t with
    | .error f => .error f
    | .ok (name, t) => (select name t).map fun a => (a, t)
  | '\x7b' :: t =>
    if levels == 0 then .error (.next .tooDeep ('\x7b' :: t))
    else
      match readName t with
      | .error f => .error f
      | .ok (name, t) =>
        match select name t with
        | .error f => .error f
        | .ok a =>
          match readColon t with
          | .error f => .error f
          | .ok t =>
            let t := skipSpace t
            let unit : Except Fault (List Char) :=
              match t with
              | [] => .error (.here .endInValue [])
              | 'n' :: t => readWord ['u', 'l', 'l'] t
              | t => .error (mismatch "unit" t)
            match unit with
            | .error f => .error f
            | .ok t =>
              match skipSpace t with
              | '\x7d' :: t => .ok (a, t)
              | [] => .error (.here .endInObject [])
              | t => .error (.here .expectedValue t)
  | t => .error (.next .expectedValue t)

end HostReach.Json
