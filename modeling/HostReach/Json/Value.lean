import HostReach.Binary64.Basic

/-!
JSON values. A number written as an integer that fits 64 bits stays an integer, every other number
is binary64. Lists of elements and members are types of their own, so that functions on values are
plain structural recursion.
-/
namespace HostReach.Json

mutual

inductive Value where
  | null
  | bool (b : Bool)
  | int (n : Int)
  | real (x : Binary64)
  | text (s : String)
  | array (elements : Values)
  | object (members : Members)

inductive Values where
  | nil
  | cons (head : Value) (tail : Values)

inductive Members where
  | nil
  | cons (key : String) (value : Value) (tail : Members)

end

deriving instance DecidableEq, Repr, Inhabited for Value, Values, Members

def Values.ofList : List Value → Values
  | [] => .nil
  | v :: vs => .cons v (.ofList vs)

def Values.toList : Values → List Value
  | .nil => []
  | .cons v vs => v :: vs.toList

def Members.ofList : List (String × Value) → Members
  | [] => .nil
  | (k, v) :: ms => .cons k v (.ofList ms)

def Members.toList : Members → List (String × Value)
  | .nil => []
  | .cons k v ms => (k, v) :: ms.toList

def Members.insert (key : String) (value : Value) : Members → Members
  | .nil => .cons key value .nil
  | .cons k v ms =>
    if key = k then .cons key value ms
    else if key < k then .cons key value (.cons k v ms)
    else .cons k v (ms.insert key value)

mutual

/-- The value with the members of every object sorted by key, the last one of each key kept. -/
def Value.normal : Value → Value
  | .array vs => .array vs.normal
  | .object ms => .object (ms.normal .nil)
  | v => v

def Values.normal : Values → Values
  | .nil => .nil
  | .cons v vs => .cons v.normal vs.normal

def Members.normal (ms : Members) (sorted : Members) : Members :=
  match ms with
  | .nil => sorted
  | .cons k v ms => ms.normal (sorted.insert k v.normal)

end

mutual

def Value.depth : Value → Nat
  | .array vs => vs.depth + 1
  | .object ms => ms.depth + 1
  | _ => 0

def Values.depth : Values → Nat
  | .nil => 0
  | .cons v vs => max v.depth vs.depth

def Members.depth : Members → Nat
  | .nil => 0
  | .cons _ v ms => max v.depth ms.depth

end

def Value.text? : Value → Option String
  | .text s => some s
  | _ => none

end HostReach.Json
