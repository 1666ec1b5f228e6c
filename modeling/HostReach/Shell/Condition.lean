import HostReach.Shell.Signal

/-!
The conditions of `test` and `[`: about texts, numbers and files, joined by `-a`, `-o` and `!`, with
parentheses.
-/
namespace HostReach.Shell

def unaryOperators : List String :=
  ["-r", "-w", "-x", "-e", "-f", "-d", "-c", "-b", "-p", "-u", "-g", "-k", "-s", "-t", "-z",
    "-n", "-h", "-O", "-G", "-L", "-S"]

def binaryOperators : List String :=
  ["=", "!=", "<", ">", "-eq", "-ne", "-ge", "-gt", "-le", "-lt", "-nt", "-ot", "-ef"]

def isUnary (t : List Char) : Bool := unaryOperators.contains (String.ofList t)

def isBinary (t : List Char) : Bool := binaryOperators.contains (String.ofList t)

inductive TestFault where
  | illegalNumber (text : List Char)
  | unexpectedOperator (text : List Char)
  | argumentExpected (operator : List Char)
  | parenthesisExpected
  | bracketMissing

def TestFault.message : TestFault → List Char
  | .illegalNumber t => "Illegal number: ".toList ++ t
  | .unexpectedOperator t =>
    if t.isEmpty then "unexpected operator".toList else t ++ ": unexpected operator".toList
  | .argumentExpected t => t ++ ": argument expected".toList
  | .parenthesisExpected => "closing paren expected".toList
  | .bracketMissing => "missing ]".toList

def number (t : List Char) : Except TestFault Int :=
  match Arithmetic.integer? true t with
  | some n => .ok n
  | none => .error (.illegalNumber t)

/-- The answer about one operand. Everybody may read and write files here; only directories and
installed programs are executed. -/
def unaryTest (s : State) (op : List Char) (arg : List Char) : Except TestFault Bool :=
  let path := ByteText.toString arg
  let found := s.files.find path
  match String.ofList op with
  | "-n" => .ok (!arg.isEmpty)
  | "-z" => .ok arg.isEmpty
  | "-t" => (number arg).map fun _ => false
  | "-e" => .ok found.isOk
  | "-r" => .ok found.isOk
  | "-w" => .ok found.isOk
  | "-O" => .ok found.isOk
  | "-G" => .ok found.isOk
  | "-d" => .ok (s.files.isDirectory path)
  | "-f" =>
    match found with
    | .ok (p, .file _) => .ok (p.head? != some "dev".toList)
    | _ => .ok false
  | "-c" =>
    match found with
    | .ok (p, .file _) => .ok (p.head? == some "dev".toList)
    | _ => .ok false
  | "-x" =>
    match found with
    | .ok (_, .directory _) => .ok true
    | .ok (p, .file _) => .ok (s.world.programs.contains (String.ofList (p.getLast?.getD [])))
    | _ => .ok false
  | "-s" =>
    match found with
    | .ok (_, .directory _) => .ok true
    | .ok (_, .file content) => .ok (!content.isEmpty)
    | _ => .ok false
  | _ => .ok false

def binaryTest (s : State) (a op b : List Char) : Except TestFault Bool := do
  let numbers (holds : Int → Int → Bool) : Except TestFault Bool := do
    return holds (← number a) (← number b)
  let place (t : List Char) := ((s.files.find (ByteText.toString t)).toOption).map (·.1)
  match String.ofList op with
  | "=" => return a == b
  | "!=" => return a != b
  | "<" => return decide (a < b)
  | ">" => return decide (b < a)
  | "-eq" => numbers fun m n => m == n
  | "-ne" => numbers fun m n => m != n
  | "-lt" => numbers fun m n => decide (m < n)
  | "-le" => numbers fun m n => decide (m ≤ n)
  | "-gt" => numbers fun m n => decide (n < m)
  | "-ge" => numbers fun m n => decide (n ≤ m)
  | "-ef" => return (place a).isSome && place a == place b
  | _ => return false

inductive Role where
  | nothing
  | operand
  | unary
  | binary
  | conjunction
  | disjunction
  | negation
  | opening
  | closing
  deriving DecidableEq, Repr

/-- The role of the first argument. A unary operator is an operand where no operand or a binary
operator follows it. -/
def roleOf : List (List Char) → Role
  | [] => .nothing
  | t :: rest =>
    if isUnary t then
      match rest with
      | [] => .operand
      | [_] => .unary
      | u :: _ => if isBinary u then .operand else .unary
    else if isBinary t then .binary
    else
      match t with
      | ['-', 'a'] => .conjunction
      | ['-', 'o'] => .disjunction
      | ['!'] => .negation
      | ['('] => if rest.isEmpty then .operand else .opening
      | [')'] => .closing
      | _ => .operand

abbrev Tested := Except TestFault (Bool × List (List Char))

mutual

/-- Conditions joined by `-o`; the arguments that are left begin with the last one that was used. -/
def readOr (fuel : Nat) (s : State) (role : Role) (args : List (List Char)) : Tested :=
  match fuel with
  | 0 => .ok (false, args)
  | fuel + 1 => do
    let (a, args) ← readAnd fuel s role args
    if roleOf args.tail == .disjunction then
      let args := args.drop 2
      let (b, args) ← readOr fuel s (roleOf args) args
      return (a || b, args)
    else return (a, args)

def readAnd (fuel : Nat) (s : State) (role : Role) (args : List (List Char)) : Tested :=
  match fuel with
  | 0 => .ok (false, args)
  | fuel + 1 => do
    let (a, args) ← readNot fuel s role args
    if roleOf args.tail == .conjunction then
      let args := args.drop 2
      let (b, args) ← readAnd fuel s (roleOf args) args
      return (a && b, args)
    else return (a, args)

def readNot (fuel : Nat) (s : State) (role : Role) (args : List (List Char)) : Tested :=
  match fuel with
  | 0 => .ok (false, args)
  | fuel + 1 =>
    if role == .negation then do
      let next := args.tail
      let (a, rest) ← readNot fuel s (roleOf next) (if next.isEmpty then args else next)
      return (!a, rest)
    else readOne fuel s role args

def readOne (fuel : Nat) (s : State) (role : Role) (args : List (List Char)) : Tested :=
  match fuel with
  | 0 => .ok (false, args)
  | fuel + 1 =>
    match role, args with
    | .nothing, args => .ok (false, args)
    | .opening, _ :: rest =>
      if roleOf rest == .closing then .ok (false, rest)
      else do
        let (a, args) ← readOr fuel s (roleOf rest) rest
        if roleOf args.tail == .closing then return (a, args.tail)
        else throw .parenthesisExpected
    | .unary, op :: arg :: rest => (unaryTest s op arg).map fun a => (a, arg :: rest)
    | .unary, [op] => .error (.argumentExpected op)
    | _, a :: op :: rest =>
      if isBinary op && roleOf (op :: rest) == .binary then
        match rest with
        | b :: rest => (binaryTest s a op b).map fun r => (r, b :: rest)
        | [] => .error (.argumentExpected op)
      else .ok (!a.isEmpty, a :: op :: rest)
    | _, [a] => .ok (!a.isEmpty, [a])
    | _, [] => .ok (false, [])

end

def condition (s : State) (role : Role) (args : List (List Char)) : Except TestFault Bool := do
  let (a, rest) ← readOr (4 * args.length + 8) s role args
  match rest with
  | used :: _ :: _ => throw (.unexpectedOperator used)
  | _ => return a

/-- The answer of all arguments; for up to four of them their number decides first. -/
def answer (fuel : Nat) (s : State) (args : List (List Char)) : Except TestFault Bool :=
  match fuel with
  | 0 => .ok false
  | fuel + 1 =>
    let negated (args : List (List Char)) : Except TestFault Bool := (answer fuel s args).map not
    match args with
    | [] => .ok false
    | [a, op, b] =>
      if isBinary op then condition s .operand [a, op, b]
      else if a == ['('] && b == [')'] then condition s (roleOf [op]) [op]
      else if a == ['!'] then negated [op, b]
      else condition s (roleOf args) args
    | [a, b, c, d] =>
      if a == ['('] && d == [')'] then condition s (roleOf [b, c]) [b, c]
      else if a == ['!'] then negated [b, c, d]
      else condition s (roleOf args) args
    | args => condition s (roleOf args) args

def test (isBracket : Bool) (s : State) (args : List (List Char)) : State :=
  let answered : Except TestFault Bool :=
    if !isBracket then answer (args.length + 1) s args
    else if args.getLast? == some [']'] then answer (args.length + 1) s args.dropLast
    else .error .bracketMissing
  match answered with
  | .ok b => s.withStatus (if b then 0 else 1)
  | .error f => s.fail f.message

end HostReach.Shell
