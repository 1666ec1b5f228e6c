import HostReach.Proofs.Json.Literal
import HostReach.Proofs.Json.Numeral

/-!
JSON texts as trees that keep every character: how white space is set, how numbers and strings are
written, and the members of an object in order, repeated keys included. Each tree has a text, and a
value if its numbers are in range and its surrogates in pairs.
-/
namespace HostReach.Json

def Literal.verbatim (t : String) : Literal :=
  t.toList.filterMap fun c => if h : c ≠ '\x22' ∧ c ≠ '\\' ∧
  ¬c < ' ' then some (.plain c h) else none

structure Space where
  chars : List Char
  isSpace : ∀ c ∈ chars, Json.isSpace c

instance : Coe Space (List Char) := ⟨Space.chars⟩

mutual

inductive Tree where
  | null
  | bool (b : Bool)
  | number (n : Numeral)
  | text (gs : Literal)
  | emptyArray (inside : Space)
  | array (before : Space) (elements : Elements)
  | emptyObject (inside : Space)
  | object (before : Space) (entries : Entries)

inductive Elements where
  | last (value : Tree) (after : Space)
  | cons (value : Tree) (after before : Space) (tail : Elements)

inductive Entries where
  | last (key : Literal) (beforeColon afterColon : Space) (value : Tree) (after : Space)
  | cons (key : Literal) (beforeColon afterColon : Space) (value : Tree) (after before : Space)
      (tail : Entries)

end

mutual

def Tree.chars (rest : List Char) : Tree → List Char
  | .null => 'n' :: 'u' :: 'l' :: 'l' :: rest
  | .bool true => 't' :: 'r' :: 'u' :: 'e' :: rest
  | .bool false => 'f' :: 'a' :: 'l' :: 's' :: 'e' :: rest
  | .number n => n.text rest
  | .text gs => '\x22' :: Literal.text gs rest
  | .emptyArray w => '[' :: (w ++ ']' :: rest)
  | .array w es => '[' :: (w ++ es.chars rest)
  | .emptyObject w => '\x7b' :: (w ++ '\x7d' :: rest)
  | .object w es => '\x7b' :: (w ++ '\x22' :: es.chars rest)

def Elements.chars (rest : List Char) : Elements → List Char
  | .last v after => v.chars (after ++ ']' :: rest)
  | .cons v after before es => v.chars (after ++ ',' :: (before ++ es.chars rest))

def Entries.chars (rest : List Char) : Entries → List Char
  | .last k beforeColon afterColon v after =>
    Literal.text k (beforeColon ++ ':' :: (afterColon ++ v.chars (after ++ '\x7d' :: rest)))
  | .cons k beforeColon afterColon v after before es =>
    Literal.text k (beforeColon ++ ':' ::
      (afterColon ++ v.chars (after ++ ',' :: (before ++ '\x22' :: es.chars rest))))

end

mutual

def Tree.value? : Tree → Option Value
  | .null => some .null
  | .bool b => some (.bool b)
  | .number n => n.value?.map Number.value
  | .text gs => (Literal.value? gs).map .text
  | .emptyArray _ => some (.array .nil)
  | .array _ es => es.values?.map .array
  | .emptyObject _ => some (.object .nil)
  | .object _ es => es.members?.map .object

def Elements.values? : Elements → Option Values
  | .last v _ => v.value?.map (.cons · .nil)
  | .cons v _ _ es => v.value?.bind fun v => es.values?.map (.cons v)

def Entries.members? : Entries → Option Members
  | .last k _ _ v _ => (Literal.value? k).bind fun k => v.value?.map (.cons k · .nil)
  | .cons k _ _ v _ _ es =>
    (Literal.value? k).bind fun k => v.value?.bind fun v => es.members?.map (.cons k v)

end

/-- What follows a tree does not continue it, which only a number can be. -/
def Tree.EndsAt (rest : List Char) : Tree → Prop
  | .number n => n.EndsAt rest
  | _ => True

def Elements.trees : Elements → List Tree
  | .last v _ => [v]
  | .cons v _ _ es => v :: es.trees

def Entries.trees : Entries → List Tree
  | .last _ _ _ v _ => [v]
  | .cons _ _ _ v _ _ es => v :: es.trees

def Tree.children : Tree → List Tree
  | .array _ es => es.trees
  | .object _ es => es.trees
  | _ => []

def Tree.isObject : Tree → Bool
  | .emptyObject _ | .object _ _ => true
  | _ => false

/-- The members in the order of the text, each with its key, if the key has a meaning. -/
def Entries.named : Entries → List (Option String × Tree)
  | .last k _ _ v _ => [(Literal.value? k, v)]
  | .cons k _ _ v _ _ es => (Literal.value? k, v) :: es.named

def Tree.named : Tree → List (Option String × Tree)
  | .object _ es => es.named
  | _ => []

/-- A whole JSON text: a value between white space. -/
structure Document where
  before : Space
  tree : Tree
  after : Space

def Document.text (d : Document) : String := String.ofList (d.before ++ d.tree.chars d.after)

/-- The text is JSON, whatever its numbers and strings mean. -/
def IsJson (t : String) : Prop := ∃ d : Document, d.text = t

def IsObject (t : String) : Prop := ∃ d : Document, d.text = t ∧ d.tree.isObject = true

/-- The text is JSON that stands for the value. -/
def Denotes (t : String) (v : Value) : Prop := ∃ d : Document, d.text = t ∧ d.tree.value? = some v

end HostReach.Json
