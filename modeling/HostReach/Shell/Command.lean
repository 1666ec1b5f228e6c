import HostReach.Shell.Token

/-!
How tokens make up commands. A script is read line by line: a command ends with the line on which it
is complete.
-/
namespace HostReach.Shell

def assignment? (w : Word) : Option (List Char × Word) :=
  match w with
  | .text t false :: parts =>
    match t.dropWhile (· != '=') with
    | [] => none
    | _ :: value =>
      let name := t.takeWhile (· != '=')
      if isName name then some (name, if value.isEmpty then parts else .text value false :: parts)
      else none
  | _ => none

def Token.word? : Token → Option Word
  | .word w => some w
  | .reserved text => some [.text text.toList false]
  | _ => none

def quotedName (text : String) : Option String := some ("\"" ++ text ++ "\"")

def announce (delimiter : Word) (stripsTabs : Bool) : Reader Nat := do
  let s ← get
  let isLiteral := delimiter.any fun p => p.isQuoted
  let a : Awaited := ⟨s.announced, plainText delimiter, isLiteral, stripsTabs⟩
  set { s with announced := s.announced + 1, awaited := s.awaited ++ [a] }
  return a.number

def readRedirect (commands : Reader Command) (descriptor : Nat)
    (text : String) : Reader Redirect := do
  let bound := (← get).bound
  let isDocument := text == "<<" || text == "<<-"
  match ← readToken commands bound (if isDocument then .delimiter else .bare) with
  | .word w =>
    match text with
    | "<<" => return .document descriptor (← announce w false)
    | "<<-" => return .document descriptor (← announce w true)
    | "<&" => return .copy descriptor w
    | ">&" => return .copy descriptor w
    | "<" => return .file descriptor .read w
    | "<>" => return .file descriptor .both w
    | ">>" => return .file descriptor .append w
    | ">|" => return .file descriptor .overwrite w
    | _ => return .file descriptor .write w
  | t => unexpected t none

/-- A compound command with redirections after it. A group of one command is that command, and a
subshell has the last redirections only. -/
def Command.redirectedBy (line : Nat) (rs : List Redirect) : Command → Command
  | .list [c] => c.redirectedBy line rs
  | .redirected _ (.subshell l c) _ => .redirected line (.subshell l c) rs
  | c => .redirected line c rs

def readRedirects (commands : Reader Command) (fuel : Nat) : Reader (List Redirect) :=
  match fuel with
  | 0 => return []
  | fuel + 1 => do
    match ← nextToken commands fuel false true true with
    | .redirect d text =>
      let r ← readRedirect commands d text
      return r :: (← readRedirects commands fuel)
    | t =>
      hold t
      return []

def readWords (commands : Reader Command) (fuel : Nat) : Reader (List Word × Token) :=
  match fuel with
  | 0 => return ([], .ended)
  | fuel + 1 => do
    match ← nextToken commands fuel false false false with
    | .word w =>
      let (ws, t) ← readWords commands fuel
      return (w :: ws, t)
    | t => return ([], t)

def readPatterns (commands : Reader Command) (fuel : Nat) (t : Token) : Reader (List Word) :=
  match fuel with
  | 0 => return []
  | fuel + 1 => do
    let w := t.word?.getD []
    match ← nextToken commands fuel false false false with
    | .operator "|" =>
      let t ← nextToken commands fuel false false false
      return w :: (← readPatterns commands fuel t)
    | .operator ")" => return [w]
    | t => unexpected t (quotedName ")")

def expectReserved (commands : Reader Command) (fuel : Nat) (eatsLines : Bool)
    (text : String) : Reader Unit := do
  match ← nextToken commands fuel eatsLines true true with
  | .reserved r => if r == text then pure () else unexpected (.reserved r) (quotedName text)
  | t => unexpected t (quotedName text)

def Token.endsList : Token → Bool
  | .operator text => text == ")" || text == ";;"
  | .reserved text => ["then", "elif", "else", "fi", "do", "done", "esac", "\x7d"].contains text
  | _ => false

/-- Which list of commands is read: a line, the inside of a compound command, or one that may be
empty. -/
inductive Extent where
  | line
  | inner
  | maybeEmpty
  deriving DecidableEq, Repr

mutual

/-- Commands separated by semicolons, ampersands and line ends; `before` holds those that have been
read, last one first. -/
def readList (fuel : Nat) (extent : Extent) (before : List Command) : Reader (List Command) :=
  match fuel with
  | 0 => return before.reverse
  | fuel + 1 => do
    let eatsLines := extent != .line
    let commands : Reader Command := readInner fuel
    match ← nextToken commands fuel eatsLines true true with
    | .lineEnd => return before.reverse
    | .ended =>
      hold .ended
      return before.reverse
    | t =>
      hold t
      if t.endsList && (extent == .maybeEmpty || (extent == .inner && !before.isEmpty)) then
        return before.reverse
      let c ← readChain fuel
      match ← nextToken commands fuel false false false with
      | .operator ";" => readList fuel extent (c :: before)
      | .operator "&" => readList fuel extent (.background c :: before)
      | .lineEnd =>
        if eatsLines then readList fuel extent (c :: before) else return (c :: before).reverse
      | .ended =>
        hold .ended
        return (c :: before).reverse
      | t =>
        if !eatsLines then unexpected t none
        hold t
        return (c :: before).reverse

def readInner (fuel : Nat) : Reader Command :=
  match fuel with
  | 0 => return .list []
  | fuel + 1 => do
    let cs ← readList fuel .maybeEmpty []
    return .list cs

def readChain (fuel : Nat) : Reader Command :=
  match fuel with
  | 0 => return .list []
  | fuel + 1 => do
    let c ← readPipeline fuel false
    readChainRest fuel c

def readChainRest (fuel : Nat) (c : Command) : Reader Command :=
  match fuel with
  | 0 => return c
  | fuel + 1 => do
    match ← nextToken (readInner fuel) fuel false false false with
    | .operator "&&" => do readChainRest fuel (.both c (← readPipeline fuel true))
    | .operator "||" => do readChainRest fuel (.either c (← readPipeline fuel true))
    | t =>
      hold t
      return c

def readPipeline (fuel : Nat) (eatsLines : Bool) : Reader Command :=
  match fuel with
  | 0 => return .list []
  | fuel + 1 => do
    match ← nextToken (readInner fuel) fuel eatsLines true true with
    | .reserved "!" => return .negated (← readStages fuel false)
    | t =>
      hold t
      readStages fuel false

def readStages (fuel : Nat) (eatsLines : Bool) : Reader Command :=
  match fuel with
  | 0 => return .list []
  | fuel + 1 => do
    let c ← readCommand fuel eatsLines
    match ← nextToken (readInner fuel) fuel false false false with
    | .operator "|" => return .piped c (← readStages fuel true)
    | t =>
      hold t
      return c

def readCommand (fuel : Nat) (eatsLines : Bool) : Reader Command :=
  match fuel with
  | 0 => return .list []
  | fuel + 1 => do
    let commands : Reader Command := readInner fuel
    let t ← nextToken commands fuel eatsLines true true
    let line := (← get).line
    let compound (c : Command) : Reader Command := do
      let rs ← readRedirects commands fuel
      return if rs.isEmpty then c else c.redirectedBy line rs
    match t with
    | .reserved "if" => compound (← readBranch fuel)
    | .reserved "while" => compound (← readLoop fuel false)
    | .reserved "until" => compound (← readLoop fuel true)
    | .reserved "for" => compound (← readEach fuel line)
    | .reserved "case" =>
      match ← nextToken commands fuel false false false with
      | .word w =>
        expectReserved commands fuel true "in"
        compound (.choose line w (← readCases fuel))
      | t => unexpected t (some "word")
    | .reserved "\x7b" =>
      let cs ← readList fuel .inner []
      expectReserved commands fuel false "\x7d"
      compound (.list cs)
    | .operator "(" =>
      let cs ← readList fuel .inner []
      match ← nextToken commands fuel false true true with
      | .operator ")" => compound (.subshell line (.list cs))
      | t => unexpected t (quotedName ")")
    | .word _ =>
      hold t
      readSimple fuel line true [] [] []
    | .redirect _ _ =>
      hold t
      readSimple fuel line true [] [] []
    | t => unexpected t none

/-- A simple command; what has been read of it is held last one first. -/
def readSimple (fuel line : Nat) (aliases : Bool) (assignments : List (List Char × Word))
    (words : List Word) (redirects : List Redirect) : Reader Command :=
  match fuel with
  | 0 => return .list []
  | fuel + 1 => do
    let commands : Reader Command := readInner fuel
    let finished : Command := .simple line assignments.reverse words.reverse redirects.reverse
    match ← nextToken commands fuel false false aliases with
    | .word w =>
      match words, assignment? w with
      | [], some a => readSimple fuel line aliases (a :: assignments) words redirects
      | _, _ => readSimple fuel line false assignments (w :: words) redirects
    | .redirect d text => do
      let r ← readRedirect commands d text
      readSimple fuel line aliases assignments words (r :: redirects)
    | .operator "(" =>
      match words, assignments, redirects with
      | [w], [], [] =>
        match ← nextToken commands fuel false false false with
        | .operator ")" =>
          let name := (bareText? w).getD []
          if !isName name || specialNames.contains (String.ofList name) then refuse .badFunctionName
          return .define name (← readCommand fuel true)
        | t => unexpected t (quotedName ")")
      | _, _, _ =>
        hold (.operator "(")
        return finished
    | t =>
      hold t
      return finished

def readBranch (fuel : Nat) : Reader Command :=
  match fuel with
  | 0 => return .list []
  | fuel + 1 => do
    let commands : Reader Command := readInner fuel
    let condition ← readList fuel .inner []
    expectReserved commands fuel false "then"
    let yes ← readList fuel .inner []
    match ← nextToken commands fuel false true true with
    | .reserved "elif" => return .branch (.list condition) (.list yes) (← readBranch fuel)
    | .reserved "else" =>
      let no ← readList fuel .inner []
      expectReserved commands fuel false "fi"
      return .branch (.list condition) (.list yes) (.list no)
    | .reserved "fi" => return .branch (.list condition) (.list yes) (.list [])
    | t => unexpected t (quotedName "fi")

def readLoop (fuel : Nat) (untilTrue : Bool) : Reader Command :=
  match fuel with
  | 0 => return .list []
  | fuel + 1 => do
    let commands : Reader Command := readInner fuel
    let condition ← readList fuel .inner []
    expectReserved commands fuel false "do"
    let body ← readList fuel .inner []
    expectReserved commands fuel false "done"
    return .loop untilTrue (.list condition) (.list body)

def readEach (fuel line : Nat) : Reader Command :=
  match fuel with
  | 0 => return .list []
  | fuel + 1 => do
    let commands : Reader Command := readInner fuel
    let name := match ← nextToken commands fuel false false false with
      | .word w => (bareText? w).getD []
      | _ => []
    if !isName name then refuse .badLoopVariable
    let words ← match ← nextToken commands fuel true true true with
      | .reserved "in" => do
        let (ws, t) ← readWords commands fuel
        match t with
        | .lineEnd => pure ws
        | .operator ";" => pure ws
        | t => unexpected t none
      | .operator ";" => pure [allArguments]
      | t => do
        hold t
        pure [allArguments]
    expectReserved commands fuel true "do"
    let body ← readList fuel .inner []
    expectReserved commands fuel false "done"
    return .each line name words (.list body)

def readCases (fuel : Nat) : Reader (List (List Word × Command)) :=
  match fuel with
  | 0 => return []
  | fuel + 1 => do
    let commands : Reader Command := readInner fuel
    match ← nextToken commands fuel true true false with
    | .reserved "esac" => return []
    | t =>
      let t ← match t with
        | .operator "(" => nextToken commands fuel false false false
        | t => pure t
      let patterns ← readPatterns commands fuel t
      let body ← readList fuel .maybeEmpty []
      match ← nextToken commands fuel true true false with
      | .reserved "esac" => return [(patterns, .list body)]
      | .operator ";;" => return (patterns, .list body) :: (← readCases fuel)
      | t => unexpected t (quotedName ";;")

end

def nextLine (s : Source) : Except Refusal (Option Command × Source) :=
  match (readList (8 * s.bound + 64) .line []).run s with
  | .error r => .error r
  | .ok (cs, s) =>
    .ok (if cs.isEmpty && s.isAtEnd then none else some (.list cs), s)

end HostReach.Shell
