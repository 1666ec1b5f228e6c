import HostReach.Shell.Syntax

/-!
Cutting the text of a script into tokens: words, operators, redirections and the ends of lines. A
word may hold commands of its own, which are left to a reader of commands.
-/
namespace HostReach.Shell

inductive Token where
  | word (w : Word)
  | reserved (text : String)
  | operator (text : String)
  | lineEnd
  | ended
  /-- Redirection of a descriptor; the text is `<`, `>` or a longer operator that begins with
  one. -/
  | redirect (descriptor : Nat) (text : String)

def Token.description : Token → String
  | .word _ => "word"
  | .reserved text => "\"" ++ text ++ "\""
  | .operator text => "\"" ++ text ++ "\""
  | .lineEnd => "newline"
  | .ended => "end of file"
  | .redirect _ _ => "redirection"

inductive ScriptFault where
  | unterminatedQuote
  | unterminatedBackquote
  | missing (closing : String)
  /-- A token that cannot stand here, and what was awaited in its place. -/
  | unexpected (token : String) (awaited : Option String)
  | badLoopVariable
  | badFunctionName
  | badDescriptor
  deriving DecidableEq, Repr

def ScriptFault.message (f : ScriptFault) : String :=
  "Syntax error: " ++
    match f with
    | .unterminatedQuote => "Unterminated quoted string"
    | .unterminatedBackquote => "EOF in backquote substitution"
    | .missing closing => "Missing '" ++ closing ++ "'"
    | .unexpected token (some awaited) => token ++ " unexpected (expecting " ++ awaited ++ ")"
    | .unexpected token none => token ++ " unexpected"
    | .badLoopVariable => "Bad for loop variable"
    | .badFunctionName => "Bad function name"
    | .badDescriptor => "Bad fd number"

structure Refusal where
  line : Nat
  fault : ScriptFault
  deriving DecidableEq, Repr

/-- A document that begins on the next line, with the line that ends it. In a literal one nothing is
expanded. -/
structure Awaited where
  number : Nat
  delimiter : List Char
  isLiteral : Bool
  stripsTabs : Bool

structure Source where
  rest : List Char
  line : Nat := 1
  held : Option Token := none
  awaited : List Awaited := []
  documents : List (Nat × Word) := []
  announced : Nat := 0
  aliases : List (List Char × List Char) := []
  /-- The aliases whose text is being read, each with the number of characters after that text. -/
  replaced : List (List Char × Nat) := []
  /-- More than the number of characters. -/
  bound : Nat
  /-- Whether the text comes in lines, as that of a file does. -/
  comesInLines : Bool := false

def Source.ofText (t : List Char) : Source := { rest := t, bound := t.length + 1 }

def Source.isAtEnd (s : Source) : Bool :=
  match s.held with
  | some .ended => true
  | _ => false

abbrev Reader (α : Type) := StateT Source (Except Refusal) α

def refuse {α : Type} (f : ScriptFault) : Reader α := do throw ⟨(← get).line, f⟩

def unexpected {α : Type} (t : Token) (awaited : Option String) : Reader α :=
  refuse (.unexpected t.description awaited)

def skip (count : Nat) : Reader Unit :=
  modify fun s =>
    { s with rest := s.rest.drop count, line := s.line + (s.rest.take count).count '\n' }

def takeWhile (p : Char → Bool) : Reader (List Char) := do
  let t := (← get).rest.takeWhile p
  skip t.length
  return t

/-- What surrounds the text that is read, which decides what its characters mean. -/
inductive Around where
  | bare
  /-- The end of a document is announced. -/
  | delimiter
  | braces
  | quotes
  | quotedBraces
  /-- The line that ends the document, and whether tabs at the beginning of lines are left out. -/
  | document (delimiter : List Char) (stripsTabs : Bool)
  | arithmetic (depth : Nat)
  deriving DecidableEq, Repr

def Around.isQuoting : Around → Bool
  | .bare => false
  | .delimiter => false
  | .braces => false
  | _ => true

def Around.isDocument : Around → Bool
  | .document _ _ => true
  | _ => false

def Around.isArithmetic : Around → Bool
  | .arithmetic _ => true
  | _ => false

def isOperatorChar (c : Char) : Bool := ";|&<>()".toList.contains c

def Around.ending? : Around → List Char → Option Nat
  | .bare, c :: _ => if isSeparator c || isOperatorChar c then some 0 else none
  | .delimiter, c :: _ => if isSeparator c || isOperatorChar c then some 0 else none
  | .braces, '\x7d' :: _ => some 1
  | .quotedBraces, '\x7d' :: _ => some 1
  | .quotes, '\x22' :: _ => some 1
  | .arithmetic 0, ')' :: ')' :: _ => some 2
  | _, _ => none

def Around.fault? : Around → Option ScriptFault
  | .quotes => some .unterminatedQuote
  | .quotedBraces => some .unterminatedQuote
  | .braces => some (.missing "\x7d")
  | .arithmetic _ => some (.missing "))")
  | _ => none

/-- Appends text to parts that are held last one first, with their texts last character first. -/
def pushText (t : List Char) (quoted : Bool) : List Part → List Part
  | .text u q :: ps =>
    if q == quoted then .text (t.reverse ++ u) q :: ps
    else .text t.reverse quoted :: .text u q :: ps
  | ps => .text t.reverse quoted :: ps

def pushParts (inner : Word) (acc : List Part) : List Part :=
  inner.foldl (fun acc p => match p with
    | .text t q => pushText t q acc
    | p => p :: acc) acc

def wordOf (acc : List Part) : Word :=
  acc.reverse.map fun
    | .text t q => .text t.reverse q
    | p => p

/-- What stands between double quotes; the quotes leave an empty text, unless all arguments are
meant. -/
def quotedParts (inner : Word) : Word :=
  match inner with
  | [.parameter r w q] =>
    if r.name == ['@'] && r.treatment == .plain then [.parameter r w q] else .text [] true :: inner
  | _ => .text [] true :: inner

/-- The text of a substitution up to the backquote that ends it, and the number of characters
read. -/
def backquoted (inQuotes : Bool) : List Char → Option (List Char × Nat)
  | [] => none
  | '\x60' :: _ => some ([], 1)
  | '\\' :: '\n' :: t => (backquoted inQuotes t).map fun (u, n) => (u, n + 2)
  | '\\' :: c :: t =>
    let u := if c == '\\' || c == '\x60' || c == '$' ||
      (inQuotes && c == '\x22') then [c] else ['\\', c]
    (backquoted inQuotes t).map fun (v, n) => (u ++ v, n + 2)
  | c :: t => (backquoted inQuotes t).map fun (v, n) => (c :: v, n + 1)

def readBackquoted (commands : Reader Command) (around : Around) : Reader Part := do
  match backquoted around.isQuoting (← get).rest with
  | none => do
    skip (← get).rest.length
    refuse .unterminatedBackquote
  | some (t, n) => do
    skip n
    let s ← get
    let inner := { Source.ofText t with
      aliases := s.aliases, documents := s.documents, announced := s.announced }
    match commands.run inner with
    | .error r => throw r
    | .ok (c, inner) =>
      set { s with documents := inner.documents, announced := inner.announced }
      return .substitution c around.isQuoting

def isSpecialParameter (c : Char) : Bool := "#?$!-*@".toList.contains c

def readName : Reader (Option (List Char) × Bool) := do
  match (← get).rest with
  | '#' :: c :: t =>
    if isNameStart c then
      skip 1
      return (some (← takeWhile isNameChar), true)
    else if '0' ≤ c && c ≤ '9' then
      skip 2
      return (some [c], true)
    else if c != '\x7d' && t.head? == some '\x7d' then
      skip 2
      return (if isSpecialParameter c then some [c] else none, true)
    else
      skip 1
      return (some ['#'], false)
  | c :: _ =>
    if isNameStart c then return (some (← takeWhile isNameChar), false)
    else if '0' ≤ c && c ≤ '9' then return (some (← takeWhile fun c => '0' ≤ c && c ≤ '9'), false)
    else if isSpecialParameter c then
      skip 1
      return (some [c], false)
    else
      if c != '\x7d' then skip 1
      return (none, false)
  | [] => return (none, false)

/-- What is asked of a parameter in braces. A plain one is read to its end; after a colon that is
not yet the end, and the text that follows is added to the value. -/
def readTreatment : Reader (Treatment × Bool) := do
  let t := (← get).rest
  let (colon, t) := match t with
    | ':' :: t => (true, t)
    | t => (false, t)
  if colon then skip 1
  let found (count : Nat) (r : Treatment) : Reader (Treatment × Bool) := do
    skip count
    return (r, colon)
  match t with
  | '-' :: _ => found 1 .orElse
  | '+' :: _ => found 1 .instead
  | '=' :: _ => found 1 .assign
  | '?' :: _ => found 1 .demand
  | '#' :: '#' :: _ => found 2 (if colon then .unknown else .cutFront true)
  | '#' :: _ => found 1 (if colon then .unknown else .cutFront false)
  | '%' :: '%' :: _ => found 2 (if colon then .unknown else .cutBack true)
  | '%' :: _ => found 1 (if colon then .unknown else .cutBack false)
  | '\x7d' :: _ => found 1 .plain
  | _ => found 1 .unknown

/-- Begins a line of a document: leaves out tabs there, or the whole line if it ends the
document. -/
def endsDocument (delimiter : List Char) (stripsTabs : Bool) : Reader Bool := do
  let t := (← get).rest
  let tabs := if stripsTabs then (t.takeWhile (· == '\t')).length else 0
  let line := (t.drop tabs).takeWhile (· != '\n')
  if line == delimiter then
    skip (tabs + line.length + 1)
    return true
  else
    skip tabs
    return false

mutual

def readParts (commands : Reader Command) (fuel : Nat) (around : Around) (acc : List Part) :
    Reader Word :=
  match fuel with
  | 0 => return wordOf acc
  | fuel + 1 => do
    let plain (count : Nat) (t : List Char) (quoted : Bool) : Reader Word := do
      skip count
      readParts commands fuel around (pushText t quoted acc)
    match (← get).rest with
    | [] =>
      match around.fault? with
      | some f => refuse f
      | none => return wordOf acc
    | c :: t =>
      match around.ending? (c :: t) with
      | some n => do
        skip n
        return wordOf acc
      | none =>
        match c, t with
        | '\\', [] => plain 1 ['\\'] true
        | '\\', '\n' :: _ => do
          skip 2
          readParts commands fuel around acc
        | '\\', d :: _ =>
          if !around.isQuoting || d == '$' || d == '\x60' || d == '\\' ||
              (d == '\x22' && !around.isDocument) || (d == '\x7d' && around == .quotedBraces) then
            plain 2 [d] true
          else plain 2 ['\\', d] true
        | '\x27', t =>
          if around.isQuoting then plain 1 ['\x27'] true
          else do
            let inner := t.takeWhile (· != '\x27')
            skip (1 + inner.length)
            if (← get).rest.isEmpty then refuse .unterminatedQuote
            plain 1 inner true
        | '\x22', _ =>
          if around.isDocument || around.isArithmetic then plain 1 ['\x22'] true
          else if around.isQuoting then do
            skip 1
            readParts commands fuel around acc
          else do
            skip 1
            let inner ← readParts commands fuel .quotes []
            readParts commands fuel around (pushParts (quotedParts inner) acc)
        | '$', _ =>
          if around == .delimiter then plain 1 ['$'] false
          else do
            skip 1
            let part ← readExpansion commands fuel around
            readParts commands fuel around (pushParts [part] acc)
        | '\x60', _ =>
          if around == .delimiter then plain 1 ['\x60'] true
          else do
            skip 1
            let part ← readBackquoted commands around
            readParts commands fuel around (part :: acc)
        | c, _ =>
          match around with
          | .document delimiter stripsTabs => do
            skip 1
            let acc := pushText [c] true acc
            if c == '\n' && (← endsDocument delimiter stripsTabs) then return wordOf acc
            readParts commands fuel around acc
          | .arithmetic depth => do
            let depth := if c == '(' then depth + 1 else if c == ')' then depth - 1 else depth
            skip 1
            readParts commands fuel (.arithmetic depth) (pushText [c] true acc)
          | around => plain 1 [c] around.isQuoting

def readExpansion (commands : Reader Command) (fuel : Nat) (around : Around) : Reader Part :=
  match fuel with
  | 0 => return .text ['$'] around.isQuoting
  | fuel + 1 => do
    let quoted := around.isQuoting
    match (← get).rest with
    | '(' :: '(' :: _ => do
      skip 2
      return .arithmetic (← readParts commands fuel (.arithmetic 0) []) quoted
    | '(' :: _ => do
      skip 1
      let c ← commands
      match (← get).held with
      | some (.operator ")") => do
        modify fun s => { s with held := none }
        return .substitution c quoted
      | t => unexpected (t.getD .ended) (some "\")\"")
    | '\x7b' :: _ => do
      skip 1
      let (name?, isLength) ← readName
      let inner := if quoted then .quotedBraces else .braces
      match name? with
      | none =>
        let word ← readParts commands fuel inner []
        return .parameter ⟨[], .unknown, false⟩ word quoted
      | some name =>
        if isLength then
          let treatment := if (← get).rest.head? == some '\x7d' then .length else .unknown
          let word ← readParts commands fuel inner []
          return .parameter ⟨name, treatment, false⟩ word quoted
        else
          let (treatment, colon) ← readTreatment
          let inner := match treatment with
            | .cutFront _ => .braces
            | .cutBack _ => .braces
            | _ => inner
          let word ← if treatment == .plain &&
            !colon then pure [] else readParts commands fuel inner []
          return .parameter ⟨name, treatment, colon⟩ word quoted
    | c :: _ =>
      if isNameStart c then return .parameter { name := ← takeWhile isNameChar } [] quoted
      else if ('0' ≤ c && c ≤ '9') || isSpecialParameter c then do
        skip 1
        return .parameter { name := [c] } [] quoted
      else return .text ['$'] quoted
    | [] => return .text ['$'] quoted

end

def readLines (a : Awaited) (fuel : Nat) : Reader (List Char) :=
  match fuel with
  | 0 => return []
  | fuel + 1 => do
    if (← get).rest.isEmpty || (← endsDocument a.delimiter a.stripsTabs) then return []
    let line ← takeWhile (· != '\n')
    let ending := (← get).rest.take 1
    skip 1
    return line ++ ending ++ (← readLines a fuel)

def readDocuments (commands : Reader Command) : List Awaited → Reader Unit
  | [] => pure ()
  | a :: as => do
    let bound := (← get).bound
    let w ←
      if a.isLiteral then do pure [Part.text (← readLines a bound) true]
      else if ← endsDocument a.delimiter a.stripsTabs then pure []
      else readParts commands bound (.document a.delimiter a.stripsTabs) []
    modify fun s => { s with documents := (a.number, w) :: s.documents }
    readDocuments commands as

def operatorAt : List Char → Token
  | '&' :: '&' :: _ => .operator "&&"
  | '|' :: '|' :: _ => .operator "||"
  | ';' :: ';' :: _ => .operator ";;"
  | '>' :: '>' :: _ => .redirect 1 ">>"
  | '>' :: '&' :: _ => .redirect 1 ">&"
  | '>' :: '|' :: _ => .redirect 1 ">|"
  | '>' :: _ => .redirect 1 ">"
  | '<' :: '<' :: '-' :: _ => .redirect 0 "<<-"
  | '<' :: '<' :: _ => .redirect 0 "<<"
  | '<' :: '&' :: _ => .redirect 0 "<&"
  | '<' :: '>' :: _ => .redirect 0 "<>"
  | '<' :: _ => .redirect 0 "<"
  | c :: _ => .operator (String.singleton c)
  | [] => .ended

def readOperator : Reader Token := do
  let t := operatorAt (← get).rest
  match t with
  | .operator text => skip text.length
  | .redirect _ text => skip text.length
  | _ => pure ()
  return t

/-- A token, and the documents that begin after it if it is the end of a line. A digit directly
before a redirection is the descriptor. -/
def readToken (commands : Reader Command) (fuel : Nat) (around : Around) : Reader Token :=
  match fuel with
  | 0 => return .ended
  | fuel + 1 => do
    match (← get).rest with
    | [] => return .ended
    | '\n' :: _ => do
      skip 1
      let as := (← get).awaited
      modify fun s => { s with awaited := [] }
      readDocuments commands as
      return .lineEnd
    | '\\' :: '\n' :: _ => do
      skip 2
      readToken commands fuel around
    | '#' :: t => do
      skip (1 + (t.takeWhile (· != '\n')).length)
      readToken commands fuel around
    | c :: _ =>
      if isSeparator c then do
        skip 1
        readToken commands fuel around
      else if isOperatorChar c then readOperator
      else do
        let w ← readParts commands (← get).bound around []
        let next := (← get).rest.head?
        match w with
        | [.text [d] false] =>
          if '0' ≤ d && d ≤ '9' && (next == some '<' || next == some '>') then
            match ← readOperator with
            | .redirect _ text => return .redirect (d.toNat - 48) text
            | t => return t
          else return .word w
        | w => return .word w

def hold (t : Token) : Reader Unit := modify fun s => { s with held := some t }

def alias? (t : List Char) : Reader (Option (List Char)) := do
  let s ← get
  if s.aliases.isEmpty then return none
  let length := s.rest.length
  let inUse := s.replaced.filter fun (_, after) => after < length
  set { s with replaced := inUse }
  return if inUse.any (·.1 == t) then none else s.aliases.lookup t

/-- The next token. Where a command may begin, ends of lines may be left out, reserved words count,
and aliases are replaced by their texts. -/
def nextToken (commands : Reader Command) (fuel : Nat) (eatsLines reserved aliases : Bool) :
    Reader Token :=
  match fuel with
  | 0 => return .ended
  | fuel + 1 => do
    let t ← match (← get).held with
      | some t => do
        modify fun s => { s with held := none }
        pure t
      | none => do readToken commands (← get).bound .bare
    match t with
    | .lineEnd => if eatsLines then nextToken commands fuel eatsLines reserved aliases else return t
    | .word w =>
      match bareText? w with
      | none => return t
      | some text =>
        if reserved && reservedWords.contains (String.ofList text) then
          return .reserved (String.ofList text)
        else if aliases then
          match ← alias? text with
          | some u => do
            modify fun s => { s with
              rest := u ++ ' ' :: s.rest
              replaced := (text, s.rest.length) :: s.replaced
              bound := s.bound + u.length + 1 }
            nextToken commands fuel eatsLines reserved aliases
          | none => return t
        else return t
    | t => return t

end HostReach.Shell
