import HostReach.Json.Token

/-!
Reading a JSON value. Members are kept in the order of the text, repeated keys included;
`Value.normal` sorts them. `levels` is how many arrays and objects may still be opened, one inside
the other. The fuel of the mutual readers is an upper bound of their nesting, and `read` gives them
enough for any text.
-/
namespace HostReach.Json

def maxDepth : Nat := 127

inductive Next where
  | more (rest : List Char)
  | done (rest : List Char)

def nextMember (t : List Char) : Except Fault Next :=
  match skipSpace t with
  | [] => .error (.here .endInObject [])
  | '\x7d' :: t => .ok (.done t)
  | ',' :: t =>
    match skipSpace t with
    | [] => .error (.here .endInValue [])
    | '\x22' :: t => .ok (.more t)
    | '\x7d' :: t => .error (.next .trailingComma ('\x7d' :: t))
    | t => .error (.next .keyNotText t)
  | t => .error (.next .expectedObjectEnd t)

def firstMember (t : List Char) : Except Fault Next :=
  match skipSpace t with
  | [] => .error (.here .endInObject [])
  | '\x7d' :: t => .ok (.done t)
  | '\x22' :: t => .ok (.more t)
  | t => .error (.next .keyNotText t)

def nextElement (t : List Char) : Except Fault Next :=
  match skipSpace t with
  | [] => .error (.here .endInList [])
  | ']' :: t => .ok (.done t)
  | ',' :: t =>
    match skipSpace t with
    | [] => .error (.here .endInValue [])
    | ']' :: t => .error (.next .trailingComma (']' :: t))
    | t => .ok (.more t)
  | t => .error (.next .expectedListEnd t)

def firstElement (t : List Char) : Except Fault Next :=
  match skipSpace t with
  | [] => .error (.here .endInList [])
  | ']' :: t => .ok (.done t)
  | t => .ok (.more t)

def readColon (t : List Char) : Except Fault (List Char) :=
  match skipSpace t with
  | [] => .error (.here .endInObject [])
  | ':' :: t => .ok t
  | t => .error (.next .expectedColon t)

mutual

def readValue (fuel levels : Nat) (t : List Char) : Read Value :=
  match fuel with
  | 0 => .error (.here .endInValue t)
  | fuel + 1 =>
    match skipSpace t with
    | [] => .error (.here .endInValue [])
    | 'n' :: t => (readWord ['u', 'l', 'l'] t).map fun t => (.null, t)
    | 't' :: t => (readWord ['r', 'u', 'e'] t).map fun t => (.bool true, t)
    | 'f' :: t => (readWord ['a', 'l', 's', 'e'] t).map fun t => (.bool false, t)
    | '-' :: t => (readNumber true t).map fun (n, t) => (n.value, t)
    | '\x22' :: t => (readString t).map fun (s, t) => (.text s, t)
    | '[' :: t =>
      match levels with
      | 0 => .error (.next .tooDeep ('[' :: t))
      | levels + 1 =>
        match firstElement t with
        | .error f => .error f
        | .ok (.done t) => .ok (.array .nil, t)
        | .ok (.more t) =>
          match readElements fuel levels t with
          | .error f => .error f
          | .ok (vs, t) => .ok (.array vs, t)
    | '\x7b' :: t =>
      match levels with
      | 0 => .error (.next .tooDeep ('\x7b' :: t))
      | levels + 1 =>
        match firstMember t with
        | .error f => .error f
        | .ok (.done t) => .ok (.object .nil, t)
        | .ok (.more t) =>
          match readMembers fuel levels t with
          | .error f => .error f
          | .ok (ms, t) => .ok (.object ms, t)
    | c :: t =>
      if Decimal.isDigit c then (readNumber false (c :: t)).map fun (n, t) => (n.value, t)
      else .error (.next .expectedValue (c :: t))

def readElements (fuel levels : Nat) (t : List Char) : Read Values :=
  match fuel with
  | 0 => .error (.here .endInList t)
  | fuel + 1 =>
    match readValue fuel levels t with
    | .error f => .error f
    | .ok (v, t) =>
      match nextElement t with
      | .error f => .error f
      | .ok (.done t) => .ok (.cons v .nil, t)
      | .ok (.more t) =>
        match readElements fuel levels t with
        | .error f => .error f
        | .ok (vs, t) => .ok (.cons v vs, t)

def readMembers (fuel levels : Nat) (t : List Char) : Read Members :=
  match fuel with
  | 0 => .error (.here .endInObject t)
  | fuel + 1 =>
    match readString t with
    | .error f => .error f
    | .ok (k, t) =>
      match readColon t with
      | .error f => .error f
      | .ok t =>
        match readValue fuel levels t with
        | .error f => .error f
        | .ok (v, t) =>
          match nextMember t with
          | .error f => .error f
          | .ok (.done t) => .ok (.cons k v .nil, t)
          | .ok (.more t) =>
            match readMembers fuel levels t with
            | .error f => .error f
            | .ok (ms, t) => .ok (.cons k v ms, t)

end

/-- Fuel that suffices for a text: each reader passes at least one character before every second
call. -/
def fuelFor (t : List Char) : Nat := 2 * t.length + 2

def read (levels : Nat) (t : List Char) : Read Value := readValue (fuelFor t) levels t

def finish {α : Type} (r : Read α) : Except Fault α :=
  match r with
  | .error f => .error f
  | .ok (a, t) =>
    match skipSpace t with
    | [] => .ok a
    | t => .error (.next .trailingCharacters t)

def ofText (s : String) : Except Fault Value := finish (read maxDepth s.toList)

end HostReach.Json
