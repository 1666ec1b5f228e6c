import HostReach.OsError

/-!
A tree of directories and files. An entry is found by its place, the names from the root; putting an
entry at a place changes that place and nothing beside it.
-/
namespace HostReach.FileTree

abbrev Name := List Char

abbrev Place := List Name

mutual

inductive Node where
  | file (content : List UInt8)
  | directory (entries : Entries)

inductive Entries where
  | nil
  | cons (name : Name) (node : Node) (others : Entries)

end

deriving instance DecidableEq, Repr for Node, Entries

def Entries.find? (x : Name) : Entries → Option Node
  | .nil => none
  | .cons name node others => if name = x then some node else others.find? x

def Entries.put (x : Name) (n : Node) : Entries → Entries
  | .nil => .cons x n .nil
  | .cons name node others =>
    if name = x then .cons x n others else .cons name node (others.put x n)

def Entries.remove (x : Name) : Entries → Entries
  | .nil => .nil
  | .cons name node others =>
    if name = x then others.remove x else .cons name node (others.remove x)

theorem Entries.find?_put_same (x : Name) (n : Node) (es : Entries) :
    (es.put x n).find? x = some n := by
  induction es using Entries.rec (motive_1 := fun _ => True) with
  | nil => simp [put, find?]
  | cons name node others _ ih =>
    rw [put]
    split
    · simp [find?]
    · next h => simp [find?, h, ih]
  | _ => trivial

theorem Entries.find?_put_other {x y : Name} (h : y ≠ x) (n : Node) (es : Entries) :
    (es.put x n).find? y = es.find? y := by
  induction es using Entries.rec (motive_1 := fun _ => True) with
  | nil => simp [put, find?, h.symm]
  | cons name node others _ ih =>
    rw [put]
    split
    · next hx => subst hx; simp [find?, h.symm]
    · simp [find?, ih]
  | _ => trivial

theorem Entries.find?_remove_same (x : Name) (es : Entries) : (es.remove x).find? x = none := by
  induction es using Entries.rec (motive_1 := fun _ => True) with
  | nil => simp [remove, find?]
  | cons name node others _ ih =>
    rw [remove]
    split
    · exact ih
    · next h => simp [find?, h, ih]
  | _ => trivial

theorem Entries.find?_remove_other {x y : Name} (h : y ≠ x) (es : Entries) :
    (es.remove x).find? y = es.find? y := by
  induction es using Entries.rec (motive_1 := fun _ => True) with
  | nil => simp [remove]
  | cons name node others _ ih =>
    rw [remove]
    split
    · next hx => subst hx; simp [find?, h.symm, ih]
    · simp [find?, ih]
  | _ => trivial

def Node.at? : Place → Node → Option Node
  | [], n => some n
  | x :: xs, .directory es => (es.find? x).bind (Node.at? xs)
  | _ :: _, .file _ => none

/-- Does something to the directory at a place; elsewhere, and where no directory is, nothing
changes. -/
def Node.modify (f : Entries → Entries) : Place → Node → Node
  | [], .directory es => .directory (f es)
  | x :: xs, .directory es =>
    match es.find? x with
    | some n => .directory (es.put x (Node.modify f xs n))
    | none => .directory es
  | _, .file content => .file content

end FileTree

open FileTree in
structure FileTree where
  root : Node
  current : Place := []
  deriving DecidableEq, Repr

namespace FileTree

def empty : FileTree := ⟨.directory .nil, []⟩

def at? (t : FileTree) (p : Place) : Option Node := t.root.at? p

def put (t : FileTree) (p : Place) (n : Node) : FileTree :=
  match p.getLast? with
  | none => t
  | some x => { t with root := t.root.modify (Entries.put x n) p.dropLast }

def remove (t : FileTree) (p : Place) : FileTree :=
  match p.getLast? with
  | none => t
  | some x => { t with root := t.root.modify (Entries.remove x) p.dropLast }

def ofList (entries : List (Place × Node)) : FileTree :=
  entries.foldl (fun t (p, n) => t.put p n) empty

mutual

/-- The paths of the entries below a node, whose own path is given; directories end in a slash. -/
def Node.paths (path : List Char) : Node → List (List Char)
  | .file _ => []
  | .directory es => es.paths path

def Entries.paths (path : List Char) : Entries → List (List Char)
  | .nil => []
  | .cons name node others =>
    match node with
    | .file _ => (path ++ name) :: others.paths path
    | .directory es =>
      (path ++ name ++ ['/']) :: (es.paths (path ++ name ++ ['/']) ++ others.paths path)

end

def listing (t : FileTree) (p : Place) : List String :=
  (((t.at? p).map (Node.paths [])).getD []).map String.ofList |>.mergeSort fun a b => !(b < a)

end FileTree

end HostReach
