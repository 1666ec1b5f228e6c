import HostReach.Text.Search

/-!
Paths as text. Two texts may name the same path: repeated and trailing slashes and inner dots do not
count, so paths are compared by their components, while joining keeps the text.
-/
namespace HostReach.Path

inductive Component where
  | root
  | here
  | up
  | name (s : List Char)
  deriving DecidableEq, Repr

def Component.ofPiece (piece : List Char) : Component :=
  if piece == ['.', '.'] then .up else .name piece

def innerPieces (pieces : List (List Char)) : List (List Char) :=
  pieces.filter fun p => p != [] && p != ['.']

/-- The components of a path; a dot counts only at the beginning. -/
def componentList (path : List Char) : List Component :=
  let pieces := Chars.splitAt '/' path
  let inner := (innerPieces pieces).map Component.ofPiece
  match path with
  | '/' :: _ => .root :: inner
  | _ => if pieces.head? == some ['.'] then .here :: inner else inner

def components (path : String) : List Component := componentList path.toList

def same (a b : String) : Bool := components a == components b

def isAbsolute (path : String) : Bool := path.toList.head? == some '/'

/-- The path of `part` seen from `base`; an absolute part stands for itself. -/
def join (base part : String) : String :=
  if isAbsolute part then part
  else if base.isEmpty || base.toList.getLast? == some '/' then base ++ part
  else base ++ "/" ++ part

def fileName? (path : String) : Option (List Char) :=
  match (components path).getLast? with
  | some (.name s) => some s
  | _ => none

/-- A file name without its extension: what precedes the last dot, unless nothing does. -/
def stem (name : List Char) : List Char :=
  match Chars.splitLast '.' name with
  | some ([], _) => name
  | some (before, _) => before
  | none => name

def withoutFileName (path name : List Char) : List Char :=
  let rec search : List Char → List Char
    | [] => []
    | c :: t => if name.reverse.isPrefixOf (c :: t) then (c :: t).drop name.length else search t
  (search path.reverse).reverse

/-- The path with another extension for its last component; a path without a file name is kept. What
is left of a name such as `..x` once its extension is cut off is no file name, so nothing is
appended to it. -/
def withExtension (path ext : String) : String :=
  match fileName? path with
  | none => path
  | some name =>
    let base := withoutFileName path.toList name
    if stem name == ['.'] && path.toList == base ++ name then String.ofList (base ++ ['.', '.'])
    else String.ofList (base ++ stem name ++ '.' :: ext.toList)

def isInert (piece : List Char) : Bool := piece == [] || piece == ['.']

/-- The text before the pieces of a path, a slash or a dot at the beginning, and the pieces. -/
def headAndPieces : List Char → List Char × List (List Char)
  | '/' :: t => (['/'], Chars.splitAt '/' t)
  | ['.'] => (['.'], [])
  | '.' :: '/' :: t => (['.'], Chars.splitAt '/' ('/' :: t))
  | t => ([], Chars.splitAt '/' t)

def ancestorsFrom (head : List Char) : List (List Char) → List String
  | [] => if head.isEmpty then [] else [String.ofList head]
  | piece :: above =>
    if isInert piece then ancestorsFrom head above
    else
      String.ofList (head ++ ['/'].intercalate (piece :: above).reverse) :: ancestorsFrom head above

def ancestors (path : String) : List String :=
  let (head, pieces) := headAndPieces path.toList
  ancestorsFrom head pieces.reverse

end HostReach.Path
