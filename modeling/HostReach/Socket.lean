import HostReach.Text.Blank
import HostReach.Text.DecimalDigit
import HostReach.Text.Search

/-!
The table that `ss -pln` prints: a header line, then one line per socket whose last column names the
processes, as `pid=` and a number or, in older versions, as a number between commas.
-/
namespace HostReach.Socket

def listenArgs (port : String) : String := "-pln sport = :" ++ port

def labelled? (t : List Char) : Option (List Char) :=
  match t with
  | 'p' :: 'i' :: 'd' :: '=' :: t =>
    let ds := t.takeWhile isDecimalDigit
    if ds.isEmpty then none else some ds
  | _ => none

def betweenCommas? (t : List Char) : Option (List Char) :=
  match t with
  | ',' :: t =>
    let ds := t.takeWhile isDecimalDigit
    if ds.isEmpty then none
    else if (t.dropWhile isDecimalDigit).head? == some ',' then some ds
    else none
  | _ => none

/-- The process ids in a column, from left to right; what one of them takes is not looked at again.
The first `skip` characters have been taken. -/
def pidsFrom (skip : Nat) : List Char → List (List Char)
  | [] => []
  | c :: t =>
    match skip with
    | k + 1 => pidsFrom k t
    | 0 =>
      match labelled? (c :: t) with
      | some ds => ds :: pidsFrom (ds.length + 3) t
      | none =>
        match betweenCommas? (c :: t) with
        | some ds => ds :: pidsFrom (ds.length + 1) t
        | none => pidsFrom 0 t

/-- The process ids of the lines up to the first one whose last column has none. Blank lines do not
count. -/
def pidsOfLines : List (List Char) → List (List Char)
  | [] => []
  | line :: lines =>
    match (Chars.words line).getLast? with
    | none => pidsOfLines lines
    | some column =>
      match pidsFrom 0 column with
      | [] => []
      | pids => pids ++ pidsOfLines lines

def pidsOfTable (table : String) : List String :=
  (pidsOfLines ((Chars.splitAt '\n' (Chars.trim table.toList)).drop 1)).map String.ofList

end HostReach.Socket
