import HostReach.FileTree.Basic
import HostReach.Path
import HostReach.Text.Utf8

/-!
What the operating system does with a tree of files. An operation that is refused leaves the tree as
it was.
-/
namespace HostReach.FileTree

/-- The bytes that one name may take, and the bytes that a path has to stay below. -/
def maxNameBytes : Nat := 255

def pathBytesLimit : Nat := 4096

def isTooLong (name : Name) : Bool := maxNameBytes < Utf8.size name

def refusal? (path : String) : Option OsError :=
  if path.toList.contains '\x00' then some .nulByte
  else if path.isEmpty then some .notFound
  else if pathBytesLimit ≤ path.utf8ByteSize then some .nameTooLong
  else none

/-- The place and the entry reached by following pieces of a path, which must all exist, from an
entry. `above` is the place of that entry, its last name first. -/
def walk (root : Node) (above : Place) (n : Node) : List Name → Except OsError (Place × Node)
  | [] => .ok (above.reverse, n)
  | piece :: pieces =>
    match n with
    | .file _ => .error .notDirectory
    | .directory es =>
      if piece == ['.'] then walk root above n pieces
      else if piece == ['.', '.'] then
        walk root above.tail ((root.at? above.tail.reverse).getD root) pieces
      else if isTooLong piece then .error .nameTooLong
      else
        match es.find? piece with
        | none => .error .notFound
        | some n => walk root (piece :: above) n pieces

def pieces (path : String) : List Name := (Chars.splitAt '/' path.toList).filter (· != [])

def endsInSlash (path : String) : Bool := path.toList.getLast? == some '/'

def follow (t : FileTree) (path : String) (pieces : List Name) : Except OsError (Place × Node) :=
  let start := if Path.isAbsolute path then [] else t.current
  match t.at? start with
  | none => .error .notFound
  | some n => walk t.root start.reverse n pieces

def find (t : FileTree) (path : String) : Except OsError (Place × Node) :=
  match refusal? path with
  | some e => .error e
  | none =>
    match t.follow path (pieces path) with
    | .ok (p, .file content) =>
      if endsInSlash path then .error .notDirectory else .ok (p, .file content)
    | r => r

def isPresent (t : FileTree) (path : String) : Bool := (t.find path).isOk

def isDirectory (t : FileTree) (path : String) : Bool :=
  match t.find path with
  | .ok (_, .directory _) => true
  | _ => false

/-- Where the last component of a path is or would be an entry, and the entry that is there: its
directory must exist. None if the path ends in a dot or a double dot, or has no component. -/
def target (t : FileTree) (path : String) : Except OsError (Option (Place × Option Node)) :=
  match refusal? path with
  | some e => .error e
  | none =>
    match (pieces path).reverse with
    | [] => .ok none
    | last :: above =>
      match t.follow path above.reverse with
      | .error e => .error e
      | .ok (_, .file _) => .error .notDirectory
      | .ok (p, .directory es) =>
        if last == ['.'] || last == ['.', '.'] then .ok none
        else if isTooLong last then .error .nameTooLong
        else .ok (some (p ++ [last], es.find? last))

def contents (t : FileTree) (path : String) : Except OsError (List UInt8) := do
  match ← t.find path with
  | (_, .directory _) => .error .isDirectory
  | (_, .file content) => .ok content

def writable (t : FileTree) (path : String) : Except OsError (Place × List UInt8) := do
  match ← t.target path with
  | none => .error .isDirectory
  | some (_, some (.directory _)) => .error .isDirectory
  | some (p, some (.file content)) =>
    if endsInSlash path then .error .notDirectory else .ok (p, content)
  | some (p, none) => if endsInSlash path then .error .isDirectory else .ok (p, [])

def writeFile (t : FileTree) (path : String) (content : List UInt8) : Except OsError FileTree := do
  let (p, _) ← t.writable path
  return t.put p (.file content)

def makeDirectory (t : FileTree) (path : String) : Except OsError FileTree := do
  match ← t.target path with
  | some (p, none) => .ok (t.put p (.directory .nil))
  | _ => .error .alreadyExists

def renameFile (t : FileTree) (source destination : String) : Except OsError FileTree := do
  match ← t.find source with
  | (_, .directory _) => .error .isDirectory
  | (p, .file content) =>
    match ← t.target destination with
    | none => .error .busy
    | some (q, n) =>
      if endsInSlash destination then .error .notDirectory
      else
        match n with
        | some (.directory _) => .error .isDirectory
        | _ => .ok ((t.remove p).put q (.file content))

/-- Makes the directories of some paths, each the one above the path before it, the outermost first.
The tree is given back also when one cannot be made. -/
def makeDirectories (t : FileTree) : List String → FileTree × Except OsError Unit
  | [] => (t, .ok ())
  | path :: above =>
    match t.makeDirectory path with
    | .ok t => (t, .ok ())
    | .error .notFound =>
      match t.makeDirectories above with
      | (t, .error e) => (t, .error e)
      | (t, .ok ()) =>
        match t.makeDirectory path with
        | .ok t => (t, .ok ())
        | .error e => (t, if t.isDirectory path then .ok () else .error e)
    | .error e => (t, if t.isDirectory path then .ok () else .error e)

end HostReach.FileTree
