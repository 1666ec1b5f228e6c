import HostReach.Json.Scalar

/-!
Reading a record, written as an object of its fields in any order or as an array of them in the
declared order. Members with unknown keys are passed over. What has been read so far is a draft,
into which each field puts its own part.
-/
namespace HostReach.Json

/-- One field of a record whose draft has type `δ`. -/
structure Field (δ : Type) where
  key : String
  isFilled : δ → Bool
  isOptional : Bool
  /-- Reads the value of the field, given the levels that may still be opened. -/
  read : Nat → List Char → Read (δ → δ)

def Field.of {δ α : Type} (key : String) (isOptional : Bool) (isFilled : δ → Bool)
    (store : α → δ → δ) (reader : Nat → List Char → Read α) : Field δ where
  key := key
  isFilled := isFilled
  isOptional := isOptional
  read levels t := (reader levels t).map fun (a, t) => (store a, t)

structure Shape (δ : Type) where
  name : String
  fields : List (Field δ)

namespace Shape

variable {δ : Type}

def expected (s : Shape δ) : String := "struct " ++ s.name

def expectedLength (s : Shape δ) : String :=
  s.expected ++ " with " ++ Decimal.ofNat s.fields.length ++ " elements"

def missing? (s : Shape δ) (d : δ) : Option (Field δ) :=
  s.fields.find? fun f => !f.isOptional && !f.isFilled d

def close (s : Shape δ) (d : δ) (t : List Char) : Read δ :=
  match s.missing? d with
  | some f => .error (.here (.missingField f.key) t)
  | none => .ok (d, t)

/-- The refusal of a key that came before. The white space after the key, and a brace that closes
the object there, count as read. -/
def duplicate (key : String) (t : List Char) : Fault :=
  match skipSpace t with
  | '\x7d' :: t => .here (.duplicateField key) t
  | t => .here (.duplicateField key) t

/-- The value after a key: read into the draft if the key is a field's, passed over if not. -/
def readMember (s : Shape δ) (levels : Nat) (key : String) (d : δ) (t : List Char) : Read δ :=
  match s.fields.find? fun f => f.key == key with
  | none =>
    match readColon t with
    | .error f => .error f
    | .ok t => (skip t).map fun t => (d, t)
  | some field =>
    if field.isFilled d then .error (duplicate key t)
    else
      match readColon t with
      | .error f => .error f
      | .ok t => (field.read levels t).map fun (put, t) => (put d, t)

def readMembers (s : Shape δ) (fuel levels : Nat) (d : δ) (t : List Char) : Read δ :=
  match fuel with
  | 0 => .error (.here .endInObject t)
  | fuel + 1 =>
    match readString t with
    | .error f => .error f
    | .ok (key, t) =>
      match s.readMember levels key d t with
      | .error f => .error f
      | .ok (d, t) =>
        match nextMember t with
        | .error f => .error f
        | .ok (.done t) => s.close d t
        | .ok (.more t) => s.readMembers fuel levels d t

/-- The end of an array after `count` elements, the remaining fields being `fields`. -/
def closeEarly (s : Shape δ) (count : Nat) (fields : List (Field δ)) (d : δ)
    (t : List Char) : Read δ :=
  match fields.findIdx? fun f => !f.isOptional with
  | some i => .error (.here (.wrongLength (count + i) s.expectedLength) t)
  | none => .ok (d, t)

/-- Elements for the fields that are left, up to the closing bracket. `count` fields have been
read. -/
def readElements (s : Shape δ) (levels count : Nat) (d : δ) (next : Except Fault Next) :
    List (Field δ) → Read δ
  | [] =>
    match next with
    | .error f => .error f
    | .ok (.done t) => .ok (d, t)
    | .ok (.more t) => .error (.next .trailingCharacters t)
  | field :: fields =>
    match next with
    | .error f => .error f
    | .ok (.done t) => s.closeEarly count (field :: fields) d t
    | .ok (.more t) =>
      match field.read levels t with
      | .error f => .error f
      | .ok (put, t) =>
        let next :=
          if fields.isEmpty then (closeList t).map .done else nextElement t
        s.readElements levels (count + 1) (put d) next fields

def read (s : Shape δ) (empty : δ) (levels : Nat) (t : List Char) : Read δ :=
  match skipSpace t with
  | [] => .error (.here .endInValue [])
  | '[' :: t =>
    match levels with
    | 0 => .error (.next .tooDeep ('[' :: t))
    | levels + 1 => s.readElements levels 0 empty (firstElement t) s.fields
  | '\x7b' :: t =>
    match levels with
    | 0 => .error (.next .tooDeep ('\x7b' :: t))
    | levels + 1 =>
      match firstMember t with
      | .error f => .error f
      | .ok (.done t) => s.close empty t
      | .ok (.more t) => s.readMembers (t.length + 1) levels empty t
  | t => .error (mismatch s.expected t)

def ofText (s : Shape δ) (empty : δ) (text : String) : Except Fault δ :=
  finish (s.read empty maxDepth text.toList)

end Shape

end HostReach.Json
