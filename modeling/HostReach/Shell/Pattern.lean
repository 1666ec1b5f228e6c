import HostReach.Shell.ByteText
import HostReach.FileTree.Operation

/-!
Patterns of characters, as choices and file names use them: a star stands for any text, a question
mark for any character, and brackets for a character of a set.
-/
namespace HostReach.Shell

/-- A character of a word; a quoted one stands for itself. -/
structure Glyph where
  char : Char
  quoted : Bool
  deriving DecidableEq, Repr

namespace Pattern

inductive Member where
  | range (first last : Char)
  | named (name : String)
  deriving DecidableEq, Repr

inductive Item where
  | star
  | any
  | set (negated : Bool) (members : List Member)
  | char (c : Char)
  deriving DecidableEq, Repr

def isLetter (c : Char) : Bool := ('a' ≤ c && c ≤ 'z') || ('A' ≤ c && c ≤ 'Z')

def isDigit (c : Char) : Bool := '0' ≤ c && c ≤ '9'

def isSpace (c : Char) : Bool := c == ' ' || ('\t' ≤ c && c ≤ '\r')

def isVisible (c : Char) : Bool := '!' ≤ c && c ≤ '~'

def isInClass (name : String) (c : Char) : Bool :=
  match name with
  | "alpha" => isLetter c
  | "digit" => isDigit c
  | "alnum" => isLetter c || isDigit c
  | "upper" => 'A' ≤ c && c ≤ 'Z'
  | "lower" => 'a' ≤ c && c ≤ 'z'
  | "space" => isSpace c
  | "blank" => c == ' ' || c == '\t'
  | "punct" => isVisible c && !isLetter c && !isDigit c
  | "print" => c == ' ' || isVisible c
  | "graph" => isVisible c
  | "cntrl" => c < ' ' || c == '\x7f'
  | "xdigit" => isDigit c || ('a' ≤ c && c ≤ 'f') || ('A' ≤ c && c ≤ 'F')
  | _ => false

def Member.holds (c : Char) : Member → Bool
  | .range first last => first ≤ c && c ≤ last
  | .named name => isInClass name c

/-- The members of a set up to its closing bracket, which may also be the first member. -/
def readMembers (fuel : Nat) (isFirst : Bool)
    (gs : List Glyph) : Option (List Member × List Glyph) :=
  match fuel with
  | 0 => none
  | fuel + 1 =>
    match gs with
    | [] => none
    | g :: gs =>
      if g.char == ']' && !g.quoted && !isFirst then some ([], gs)
      else
        let name := (gs.drop 1).takeWhile fun g => g.char != ':'
        let after := (gs.drop 1).drop name.length
        match g.char, gs, after with
        | '[', ⟨':', _⟩ :: _, ⟨':', _⟩ :: ⟨']', _⟩ :: rest =>
          (readMembers fuel false rest).map fun (ms, rest) =>
            (.named (String.ofList (name.map (·.char))) :: ms, rest)
        | first, ⟨'-', false⟩ :: ⟨last, lastQuoted⟩ :: rest, _ =>
          if last == ']' && !lastQuoted then
            (readMembers fuel false gs).map fun (ms, rest) => (.range first first :: ms, rest)
          else (readMembers fuel false rest).map fun (ms, rest) => (.range first last :: ms, rest)
        | first, gs, _ =>
          (readMembers fuel false gs).map fun (ms, rest) => (.range first first :: ms, rest)

def readSet? (gs : List Glyph) : Option (Item × List Glyph) :=
  let (negated, gs) := match gs with
    | ⟨'!', false⟩ :: gs => (true, gs)
    | gs => (false, gs)
  (readMembers (gs.length + 1) true gs).map fun (ms, rest) => (.set negated ms, rest)

def itemsFrom (fuel : Nat) (gs : List Glyph) : List Item :=
  match fuel with
  | 0 => []
  | fuel + 1 =>
    match gs with
    | [] => []
    | ⟨c, true⟩ :: gs => .char c :: itemsFrom fuel gs
    | ⟨'*', false⟩ :: gs => .star :: itemsFrom fuel gs
    | ⟨'?', false⟩ :: gs => .any :: itemsFrom fuel gs
    | ⟨'[', false⟩ :: gs =>
      match readSet? gs with
      | some (item, rest) => item :: itemsFrom fuel rest
      | none => .char '[' :: itemsFrom fuel gs
    | ⟨c, false⟩ :: gs => .char c :: itemsFrom fuel gs

def items (gs : List Glyph) : List Item := itemsFrom (gs.length + 1) gs

def isMatch : List Item → List Char → Bool
  | [], t => t.isEmpty
  | .star :: ps, [] => isMatch ps []
  | .star :: ps, c :: t => isMatch ps (c :: t) || isMatch (.star :: ps) t
  | .any :: ps, _ :: t => isMatch ps t
  | .char d :: ps, c :: t => c == d && isMatch ps t
  | .set negated ms :: ps, c :: t => (ms.any (·.holds c) != negated) && isMatch ps t
  | _ :: _, [] => false
termination_by ps t => ps.length + t.length

def cutFront (longest : Bool) (ps : List Item) (t : List Char) : List Char :=
  let lengths := List.range (t.length + 1)
  let lengths := if longest then lengths.reverse else lengths
  match lengths.find? fun n => isMatch ps (t.take n) with
  | some n => t.drop n
  | none => t

def cutBack (longest : Bool) (ps : List Item) (t : List Char) : List Char :=
  let lengths := List.range (t.length + 1)
  let lengths := if longest then lengths else lengths.reverse
  match lengths.find? fun n => isMatch ps (t.drop n) with
  | some n => t.take n
  | none => t

def isActive (g : Glyph) : Bool := !g.quoted && (g.char == '*' || g.char == '?' || g.char == '[')

/-- The names that a pattern matches, in order; a name that begins with a dot has to be asked
for. -/
def namesIn (es : FileTree.Entries) (gs : List Glyph) : List (List Char) :=
  let rec names : FileTree.Entries → List (List Char)
    | .nil => []
    | .cons name _ others => ByteText.ofString (String.ofList name) :: names others
  let hidden := match gs with
    | g :: _ => g.char == '.'
    | [] => false
  let ps := items gs
  ((names es).filter fun n => isMatch ps n && (hidden || n.head? != some '.')).mergeSort fun a b =>
    !(b < a)

def pathsFrom (t : FileTree) (path : List Char) : List (List Glyph) → List (List Char)
  | [] => [path]
  | piece :: pieces =>
    let separator (more : List (List Glyph)) : List Char := if more.isEmpty then [] else ['/']
    if piece.any isActive then
      match t.find (if path.isEmpty then "." else ByteText.toString path) with
      | .ok (_, .directory es) =>
        (namesIn es piece).flatMap fun name => pathsFrom t (path ++ name ++ separator pieces) pieces
      | _ => []
    else
      let path := path ++ piece.map (·.char)
      if pieces.isEmpty then
        if path.getLast? == some '/' || t.isPresent (ByteText.toString path) then [path] else []
      else pathsFrom t (path ++ ['/']) pieces

def pieces : List Glyph → List (List Glyph)
  | [] => [[]]
  | g :: gs =>
    if g.char == '/' then [] :: pieces gs
    else
      match pieces gs with
      | [] => [[g]]
      | piece :: others => (g :: piece) :: others

/-- The paths that a field stands for; itself if it is no pattern or matches nothing. -/
def paths (t : FileTree) (gs : List Glyph) : List (List Char) :=
  let itself := [gs.map (·.char)]
  if gs.any isActive then
    match pathsFrom t [] (pieces gs) with
    | [] => itself
    | found => found
  else itself

end Pattern

end HostReach.Shell
