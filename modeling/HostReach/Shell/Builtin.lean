import HostReach.Shell.Condition
import HostReach.Shell.Expansion
import HostReach.Shell.Program

/-!
The commands that the shell has built in and that run no other command.
-/
namespace HostReach.Shell

abbrev Args := List (List Char)

def withCount (absent : Nat) (f : State → Nat → State) (s : State) (args : Args) : State :=
  match args with
  | [] => f s absent
  | arg :: _ =>
    match count? arg with
    | some n => f s n
    | none => illegalNumber s arg

/-- Leaves loops, or goes on with the next round of one; without a loop nothing happens. -/
def jumpBy (flow : Nat → Flow) (s : State) (args : Args) : State :=
  withCount 1 (fun s n =>
    if n == 0 then illegalNumber s (args.headD [])
    else if s.loops == 0 then s.withStatus 0
    else { s with flow := flow (min n s.loops), status := 0 }) s args

def shiftBy (s : State) (n : Nat) : State :=
  if s.args.length < n then s.failText "can't shift that many"
  else { s with args := s.args.drop n, optionOffset := 0, status := 0 }

def optionLine (s : State) (o : ShellOption) : String :=
  o.name ++ "".pushn ' ' (16 - o.name.length) ++ (if s.isOn o.letter then "on" else "off") ++ "\n"

def optionCommand (s : State) (o : ShellOption) : String :=
  (if s.isOn o.letter then "set -o " else "set +o ") ++ o.name ++ "\n"

def setNamedOption (s : State) (value : Bool) (name? : Option (List Char)) : State :=
  match name? with
  | none =>
    s.printText
      (if value then "Current option settings\n" ++ String.join (shellOptions.map (optionLine s))
      else String.join (shellOptions.map (optionCommand s)))
  | some name =>
    match shellOptions.find? fun o => o.name.toList == name with
    | some o =>
      let others := s.options.filter (· != o.letter)
      { s with options := if value then o.letter :: others else others }
    | none => s.fail ("Illegal option -o ".toList ++ name)

def setLetters (value : Bool) (s : State) (args : Args) : List Char → State × Args
  | [] => (s, args)
  | 'o' :: letters =>
    let s := setNamedOption s value args.head?
    if s.flow != .onward then (s, args) else setLetters value s args.tail letters
  | c :: letters =>
    if shellOptions.any fun o => !o.isHidden && o.letter == c then
      setLetters value { s with options := setOption value c s.options } args letters
    else (s.fail ("Illegal option -".toList ++ [c]), args)

/-- Jobs are not controlled: there is no terminal for that. -/
def State.withoutControl (s : State) : State :=
  { s with options := s.options.filter (· != 'm') }.warnText
    "can't access tty; job control turned off"

def setFrom (fuel : Nat) (s : State) (args : Args) : State :=
  match fuel with
  | 0 => s
  | fuel + 1 =>
    let replace (s : State) (args : Args) : State := { s with args, optionOffset := 0 }
    match args with
    | [] => s
    | ['-'] :: args =>
      let s := { s with options := setOption false 'x' (setOption false 'v' s.options) }
      if args.isEmpty then s else replace s args
    | ['-', '-'] :: args => replace s args
    | ('-' :: letters) :: args =>
      let (s, args) := setLetters true s args letters
      if s.flow != .onward then s else setFrom fuel s args
    | ('+' :: letters) :: args =>
      let (s, args) := setLetters false s args letters
      if s.flow != .onward then s else setFrom fuel s args
    | args => replace s args

def sortedVariables (s : State) : List (List Char × Variable) :=
  s.bindings.mergeSort fun a b => !(b.1 < a.1)

def set (s : State) (args : Args) : State :=
  if args.isEmpty then
    let line (e : List Char × Variable) : List Char :=
      match e.2.value with
      | some v => e.1 ++ '=' :: quoted v ++ ['\n']
      | none => []
    (s.print ((sortedVariables s).flatMap line)).withStatus 0
  else
    let s := setFrom (args.length + 1) (s.withStatus 0) args
    if s.isOn 'm' then s.withoutControl else s

def badName (s : State) (name : List Char) : State := s.fail (name ++ ": bad variable name".toList)

def nameAndValue (arg : List Char) : List Char × Option (List Char) :=
  let name := arg.takeWhile (· != '=')
  (name, if name.length == arg.length then none else some (arg.drop (name.length + 1)))

def markAll (mark : Variable → Variable) (s : State) : Args → State
  | [] => s
  | arg :: args =>
    let (name, value) := nameAndValue arg
    if !isName name then badName s name
    else
      let s := match value with
        | some v => s.assign name v
        | none => s
      if s.flow != .onward then s
      else
        markAll mark
          (s.setVariable name (some (mark ((s.binding? name).getD { value := none })))) args

def marking (word : String) (isMarked : Variable → Bool) (mark : Variable → Variable) (s : State)
    (args : Args) : State :=
  withOptions "p" (fun os args s =>
    if args.isEmpty || !os.isEmpty then
      let line (e : List Char × Variable) : List Char :=
        if isMarked e.2 then
          word.toList ++ ' ' :: e.1 ++ ((e.2.value.map fun v => '=' :: quoted v).getD []) ++ ['\n']
        else []
      (s.print ((sortedVariables s).flatMap line)).withStatus 0
    else markAll mark (s.withStatus 0) args) s args

def localAll (s : State) : Args → State
  | [] => s.withStatus 0
  | arg :: args =>
    let (name, value) := nameAndValue arg
    if !isName name then badName s name
    else
      match s.locals with
      | [] => s.failText "not in a function"
      | frame :: frames =>
        let frame := if frame.any (·.1 == name) then frame else (name, s.binding? name) :: frame
        let s := { s with locals := frame :: frames }
        let s := match value with
          | some v => s.assign name v
          | none => s
        if s.flow != .onward then s else localAll s args

def declareLocal (s : State) (args : Args) : State :=
  if s.locals.isEmpty then s.failText "not in a function" else localAll s args

def unsetAll (functions : Bool) (s : State) : Args → State
  | [] => s.withStatus 0
  | name :: names =>
    if functions then unsetAll functions
      { s with functions := s.functions.filter fun f => f.1 != name } names
    else if !isName name then badName s name
    else
      match s.binding? name with
      | some v =>
        if v.isReadOnly then s.fail (name ++ ": is read only".toList)
        else unsetAll functions (s.setVariable name none) names
      | none => unsetAll functions s names

/-- A line that is read: its characters, an escaped one not cutting fields, the text after it, and
whether the line was complete. -/
def readLine (raw : Bool) (line : List Item) : List Char → List Item × List Char × Bool
  | [] => (line.reverse, [], false)
  | '\n' :: t => (line.reverse, t, true)
  | '\x00' :: t => readLine raw line t
  | '\\' :: c :: t =>
    if raw then readLine raw (.char '\\' false true :: line) (c :: t)
    else if c == '\n' then readLine raw line t
    else readLine raw (.char c true false :: line) t
  | ['\\'] =>
    if raw then ((.char '\\' false true :: line).reverse, [], false) else (line.reverse, [], false)
  | c :: t => readLine raw (.char c false true :: line) t

/-- A line on its way into at most `left` more fields. The field that is being read has its last
item first; a separator that is a blank absorbs the separator after it. The last field holds the
rest of the line, of which `kept` items stay unless a further one that is no separator shows that
more does. -/
structure Cutting where
  fields : List (List Item) := []
  field : List Item := []
  left : Nat
  absorbs : Bool := false
  kept : Option Nat := none

def Cutting.add (separators : List Char) (k : Cutting) (i : Item) : Cutting :=
  match i with
  | .char c _ true =>
    let separates := separators.contains c
    let isBlank := separates && isSeparator c
    if k.left == 0 then
      if isBlank then { k with field := i :: k.field, kept := k.kept.or (some k.field.length) }
      else
        { k with
          field := i :: k.field
          kept := if separates && k.absorbs then k.kept else none
          absorbs := false }
    else if k.absorbs && separates then { k with absorbs := isBlank }
    else if !separates then { k with field := i :: k.field, absorbs := false }
    else if isBlank && k.field.isEmpty then k
    else if k.left == 1 then
      { k with field := i :: k.field, left := 0, kept := some k.field.length, absorbs := isBlank }
    else
      { k with
        fields := k.field.reverse :: k.fields
        field := []
        left := k.left - 1
        absorbs := isBlank }
  | i => { k with field := i :: k.field, absorbs := false }

def fieldsOfLine (separators : List Char) (count : Nat) (line : List Item) : List (List Char) :=
  let k := line.foldl (Cutting.add separators) { left := count }
  let last := k.field.reverse.take (k.kept.getD k.field.length)
  (if last.isEmpty then k.fields else last :: k.fields).reverse.map textOfItems

def assignAll (s : State) : List (List Char × List Char) → State
  | [] => s
  | (name, value) :: more =>
    if !isName name then badName s name
    else
      let s := s.assign name value
      if s.flow != .onward then s else assignAll s more

def read (s : State) (args : Args) : State :=
  withOptions "p:r" (fun os names s =>
    if names.isEmpty then s.failText "arg count"
    else
      match s.readable 0 with
      | none => assignAll (s.withStatus 1) (names.map fun n => (n, []))
      | some i =>
        let s := s.waitUntil i.readyAt
        let (line, rest, isComplete) := readLine (os.any (·.1 == 'r')) [] i.text
        let s := s.setReadable 0 rest
        let values := fieldsOfLine s.separators names.length line
        let s := s.withStatus (if isComplete then 0 else 1)
        assignAll s (names.zipIdx.map fun (n, i) => (n, (values[i]?).getD []))) s args

def getopts (s : State) (args : Args) : State :=
  withOptions "" (fun _ args s =>
    match args with
    | known :: name :: args =>
      let args := if args.isEmpty then s.args else args
      let index := ((s.parameter "OPTIND".toList).bind count?).getD 1
      let index := if index == 0 || args.length + 1 < index then 1 else index
      let isSilent := known.head? == some ':'
      let finish (s : State) (index offset : Nat) (found : Char) (value : Option (List Char))
          (status : Nat) : State :=
        let s := match value with
          | some v => s.assign "OPTARG".toList v
          | none => s.setVariable "OPTARG".toList none
        let s := s.assign "OPTIND".toList (State.decimal index)
        assignAll ({ s with optionOffset := offset }.withStatus status) [(name, [found])]
      let current := (args[index - 2]?).getD []
      let inWord := 1 < index && 0 < s.optionOffset && s.optionOffset < current.length
      let word? : Option (List Char × Nat) :=
        if inWord then some (current, index)
        else
          match args[index - 1]? with
          | some ('-' :: c :: more) =>
            if c == '-' && more.isEmpty then none else some ('-' :: c :: more, index + 1)
          | _ => none
      match word? with
      | none =>
        let skipsDashes := args[index - 1]? == some ['-', '-']
        let kept := (s.binding? "OPTARG".toList).bind (·.value)
        finish s (if skipsDashes then index + 1 else index) 0 '?' kept 1
      | some (word, index) =>
        let offset := if inWord then s.optionOffset else 1
        let c := (word[offset]?).getD '?'
        let next := if offset + 1 < word.length then offset + 1 else 0
        if c == ':' || !known.contains c then
          if isSilent then finish s index next '?' (some [c]) 0
          else
            finish (s.write 2 ("Illegal option -".toList ++ [c, '\n'])) index next '?' none 0
        else if ((known.dropWhile (· != c)).drop 1).head? == some ':' then
          if next != 0 then finish s index 0 c (some (word.drop next)) 0
          else
            match args[index - 1]? with
            | some value => finish s (index + 1) 0 c (some value) 0
            | none =>
              if isSilent then finish s index 0 ':' (some [c]) 0
              else
                finish (s.write 2 ("No arg for -".toList ++ [c] ++ " option\n".toList))
                  index 0 '?' none 0
        else finish s index next c (some []) 0
    | _ => s.failText "Usage: getopts optstring var [arg...]") s args

/-- The place that a path leads to by its text alone, dots left out. -/
def placeOf (start : FileTree.Place) (path : String) : FileTree.Place :=
  (FileTree.pieces path).foldl (fun p piece =>
    if piece == ['.'] then p else if piece == ['.', '.'] then p.dropLast else p ++ [piece])
    (if Path.isAbsolute path then [] else start)

def changeDirectory (s : State) (args : Args) : State :=
  withOptions "LP" (fun _ args s =>
    let old := s.directoryText
    let target := match args with
      | [] => (s.parameter "HOME".toList).getD []
      | ['-'] :: _ => (s.parameter "OLDPWD".toList).getD []
      | path :: _ => path
    let place := placeOf s.files.current (ByteText.toString target)
    match s.files.at? place with
    | some (.directory _) =>
      let files := { s.files with current := place }
      let s := { s with world := { s.world with files } }
      let s := (s.assign "OLDPWD".toList old).assign "PWD".toList s.directoryText
      (if args.head? == some ['-'] then s.print (s.directoryText ++ ['\n']) else s).withStatus 0
    | _ => s.fail ("can't cd to ".toList ++ target)) s args

def printDirectory (s : State) (args : Args) : State :=
  withOptions "LP" (fun _ _ s => (s.print (s.directoryText ++ ['\n'])).withStatus 0) s args

def permissionBits (t : List Char) : Nat :=
  (if t.contains 'r' then 4 else 0) + (if t.contains 'w' then 2 else 0) +
    (if t.contains 'x' then 1 else 0)

def permissionText (bits : Nat) : String :=
  (if bits / 4 % 2 == 1 then "r" else "") ++ (if bits / 2 % 2 == 1 then "w" else "") ++
    if bits % 2 == 1 then "x" else ""

def applyClause? (allowed : Nat) (clause : List Char) : Option Nat :=
  let users := clause.takeWhile fun c => "ugoa".toList.contains c
  let everybody := users.isEmpty || users.contains 'a'
  let masked (bits : Nat) : Nat :=
    (if everybody || users.contains 'u' then bits * 64 else 0) +
      (if everybody || users.contains 'g' then bits * 8 else 0) +
      if everybody || users.contains 'o' then bits else 0
  match clause.drop users.length with
  | op :: letters =>
    if !letters.all fun c => "rwx".toList.contains c then none
    else
      let bits := masked (permissionBits letters)
      match op with
      | '+' => some (allowed ||| bits)
      | '-' => some (allowed &&& (511 - bits))
      | '=' => some ((allowed &&& (511 - masked 7)) ||| bits)
      | _ => none
  | [] => none

def readMask (s : State) (mode : List Char) : Except (List Char) Nat :=
  if mode.head?.any Decimal.isDigit then
    let mask := Arithmetic.inBase 8 mode
    if mode.all (fun c => '0' ≤ c && c ≤ '7') && mask ≤ 511 then .ok mask
    else .error ("Illegal number: ".toList ++ mode)
  else
    match (Chars.splitAt ',' mode).foldlM applyClause? (511 - s.mask) with
    | some allowed => .ok (511 - allowed)
    | none => .error ("Illegal mode: ".toList ++ mode)

def umask (s : State) (args : Args) : State :=
  withOptions "S" (fun os args s =>
    match args with
    | [] =>
      let allowed := 511 - s.mask
      let symbolic := "u=" ++ permissionText (allowed / 64) ++ ",g=" ++
        permissionText (allowed / 8 % 8) ++ ",o=" ++ permissionText (allowed % 8)
      let ds := Nat.toDigits 8 s.mask
      let octal := String.ofList (List.replicate (4 - ds.length) '0' ++ ds)
      (s.printText ((if os.isEmpty then octal else symbolic) ++ "\n")).withStatus 0
    | mode :: _ =>
      match readMask s mode with
      | .ok mask => { s with mask, status := 0 }
      | .error message => s.fail message) s args

def aliasLine (a : List Char × List Char) : List Char := a.1 ++ '=' :: quoted a.2 ++ ['\n']

def aliasAll (s : State) : Args → State
  | [] => s
  | arg :: args =>
    match nameAndValue arg with
    | (name, some value) =>
      aliasAll { s with aliases := s.aliases.filter (fun a => a.1 != name) ++ [(name, value)] } args
    | (name, none) =>
      match s.aliases.lookup name with
      | some value => aliasAll (s.print (aliasLine (name, value))) args
      | none =>
        aliasAll ((s.write 2 ("alias: ".toList ++ name ++ " not found\n".toList)).withStatus 1) args

def defineAliases (s : State) (args : Args) : State :=
  if args.isEmpty then (s.print (s.aliases.flatMap aliasLine)).withStatus 0
  else aliasAll (s.withStatus 0) args

def dropAliases (s : State) (args : Args) : State :=
  withOptions "a" (fun os names s =>
    if !os.isEmpty then { s with aliases := [], status := 0 }
    else
      names.foldl (fun s name =>
        if s.aliases.any (·.1 == name) then
          { s with aliases := s.aliases.filter fun a => a.1 != name }
        else (s.write 2 ("unalias: ".toList ++ name ++ " not found\n".toList)).withStatus 1)
          (s.withStatus 0)) s args

def process? (s : State) (j : Job) : Option Process :=
  s.world.processes.find? fun p => p.pid == j.pid

def endOf (s : State) (j : Job) : Nat := ((process? s j).map (·.endsAt)).getD 0

/-- Waits for a job, whose status is that of the command. A signal ends the waiting. -/
def waitFor (s : State) (j : Job) : State :=
  match s.waitOrReceive (endOf s j) with
  | (s, some signal) => s.withStatus (128 + signal)
  | (s, none) =>
    let p := process? s j
    let s := match p.bind (·.signal) with
      | some n => s.reportDeath n
      | none => s
    { s with
      jobs := s.jobs.filter (fun k => k.pid != j.pid)
      status := (p.map (·.status)).getD 127 }

def wait (s : State) (args : Args) : State :=
  withOptions "" (fun _ args s =>
    match args with
    | [] =>
      match s.waitOrReceive (s.jobs.foldl (fun t j => max t (endOf s j)) 0) with
      | (s, some signal) => s.withStatus (128 + signal)
      | (s, none) => { s with jobs := [], status := 0 }
    | args =>
      args.foldl (fun s arg =>
        if s.isStopped || !s.pending.isEmpty then s
        else
          let find (p : Job → Bool) (absent : State) : State :=
            match s.jobs.find? p with
            | some j => waitFor s j
            | none => absent
          match arg with
          | '%' :: number =>
            find (fun j => some j.number == digits? number) (s.fail ("No such job: ".toList ++ arg))
          | arg =>
            match count? arg with
            | some n => find (fun j => j.pid == n) (s.withStatus 127)
            | none => illegalNumber s arg) s) s args

def listJobs (s : State) (args : Args) : State :=
  withOptions "lp" (fun _ _ s =>
    let running := s.jobs.filter fun j => s.world.elapsed < endOf s j
    let last := (running.getLast?.map (·.number)).getD 0
    let line (j : Job) : String :=
      "[" ++ Decimal.ofNat j.number ++ "] " ++
        (if j.number == last then "+" else "-") ++ " Running" ++ "".pushn ' ' 20 ++ "\n"
    (s.printText (String.join (running.map line))).withStatus 0) s args

def noJob (s : State) (args : Args) : State :=
  match args with
  | [] => s.failText "No current job"
  | arg :: _ => s.fail ("No such job: ".toList ++ arg)

/-- The built-in command of a name, if it runs no other command. -/
def builtin? (name : String) : Option (State → Args → State) :=
  match name with
  | ":" => some fun s _ => s.withStatus 0
  | "true" => some fun s _ => s.withStatus 0
  | "false" => some fun s _ => s.withStatus 1
  | "echo" => some echo
  | "printf" => some printf
  | "test" => some (test false)
  | "[" => some (test true)
  | "kill" => some kill
  | "trap" => some trap
  | "read" => some read
  | "exit" => some fun s args => withCount s.status State.exitWith s args
  | "return" => some fun s args =>
    withCount s.status (fun s n => { s with flow := .returning, status := n }) s args
  | "break" => some (jumpBy .leaving)
  | "continue" => some (jumpBy .repeating)
  | "shift" => some (withCount 1 shiftBy)
  | "set" => some set
  | "export" => some (marking "export" (·.isExported) fun v => { v with isExported := true })
  | "readonly" => some (marking "readonly" (·.isReadOnly) fun v => { v with isReadOnly := true })
  | "local" => some declareLocal
  | "unset" =>
    some (withOptions "vf" fun os args s => unsetAll (os.getLast?.any (·.1 == 'f')) s args)
  | "getopts" => some getopts
  | "cd" => some changeDirectory
  | "chdir" => some changeDirectory
  | "pwd" => some printDirectory
  | "umask" => some umask
  | "alias" => some defineAliases
  | "unalias" => some dropAliases
  | "wait" => some wait
  | "jobs" => some listJobs
  | "fg" => some noJob
  | "bg" => some noJob
  | "times" => some fun s _ =>
    (s.printText "0m0.000000s 0m0.000000s\n0m0.000000s 0m0.000000s\n").withStatus 0
  | "ulimit" => some (withOptions "HSacdflmnpstvwr" fun _ args s =>
    match args with
    | [] => (s.printText "unlimited\n").withStatus 0
    | _ => s.withStatus 0)
  | _ => none

def runners : List String := ["eval", "exec", "command", ".", "type", "hash"]

def isBuiltin (name : String) : Bool := (builtin? name).isSome || runners.contains name

def describe? (s : State) (name : List Char) (full : Bool) : Option (List Char) :=
  let text := ByteText.toString name
  let said (what : String) : Option (List Char) :=
    some (if full then name ++ (" is " ++ what).toList else name)
  if reservedWords.contains text then said "a shell keyword"
  else
    match s.aliases.lookup name with
    | some value =>
      some (if full then name ++ " is an alias for ".toList ++ value
        else "alias ".toList ++ name ++ '=' :: quoted value)
    | none =>
      if s.functions.any (·.1 == name) then said "a shell function"
      else if isBuiltin text then
        said (if specialNames.contains text then "a special shell builtin" else "a shell builtin")
      else
        match findProgram s name with
        | .ok file =>
          let path := if name.contains '/' then name else ("/usr/bin/" ++ file).toList
          some (if full then name ++ " is ".toList ++ path else path)
        | .error _ => none

def describeAll (full : Bool) (s : State) (names : Args) : State :=
  names.foldl (fun s name =>
    match describe? s name full with
    | some t => s.print (t ++ ['\n'])
    | none => (if full then s.print (name ++ ": not found\n".toList) else s).withStatus 127)
        (s.withStatus 0)

def hash (s : State) (args : Args) : State :=
  withOptions "rv" (fun _ names s =>
    names.foldl (fun s name =>
      if (describe? s name false).isSome then s
      else (s.warn (name ++ ": not found".toList)).withStatus 1) (s.withStatus 0)) s args

end HostReach.Shell
