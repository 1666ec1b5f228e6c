import HostReach.Shell.Builtin
import HostReach.Shell.Redirection

/-!
Executing commands. Fuel bounds how deep commands nest; loops are bounded apart from it, and a
script that uses up a bound does not end by itself.
-/
namespace HostReach.Shell

def maxRounds : Nat := 10000000

def maxDepth : Nat := 1000

def iterate (rounds : Nat) (step : State → State × Bool) (s : State) : State :=
  match rounds with
  | 0 => { s with flow := .endless }
  | rounds + 1 =>
    let (s, goesOn) := step s
    if goesOn then iterate rounds step (s.pass roundNanos) else s

/-- A state at the end of a loop's body: a jump out of this loop or into its next round is done. -/
def settle (s : State) : State × Bool :=
  match s.flow with
  | .leaving n => ({ s with flow := if n ≤ 1 then .onward else .leaving (n - 1) }, false)
  | .repeating n =>
    if n ≤ 1 then
      let s := { s with flow := .onward }
      (s, !s.isStopped)
    else ({ s with flow := .repeating (n - 1) }, false)
  | _ => (s, !s.isStopped)

def eachValue (body : State → State) (name : List Char) (s : State) : List (List Char) → State
  | [] => s
  | v :: vs =>
    let s := s.assign name v
    if s.isStopped then s
    else
      match settle (body s) with
      | (s, true) => eachValue body name (s.pass roundNanos) vs
      | (s, false) => s

def showRead (before after : Source) (s : State) : State :=
  if before.comesInLines && s.isOn 'v' then
    s.write 2 (before.rest.take (before.rest.length - after.rest.length))
  else s

def prompt (source : Source) (isEnd : Bool) (s : State) : State :=
  if source.comesInLines && s.isOn 'i' then
    s.write 2 (if isEnd then ['\n'] else (s.parameter "PS1".toList).getD [])
  else s

/-- Executes the lines of a text one after the other; a line that is no command ends that. A text
without commands succeeds. -/
def runLines (run : Runner) (fuel : Nat) (hasRun : Bool) (source : Source) (s : State) : State :=
  match fuel with
  | 0 => s
  | fuel + 1 =>
    if s.isStopped then s
    else
      let s := prompt source false s
      match nextLine
        { source with aliases := s.aliases, announced := s.announced, documents := [] } with
      | .error r => { s with line := r.line }.failText r.fault.message
      | .ok (none, after) =>
        let s := prompt source true (showRead source after s)
        if hasRun then s else s.withStatus 0
      | .ok (some c, after) =>
        let s := showRead source after s
        let s :=
          { s with
            documents := after.documents ++ s.documents
            announced := after.announced
            isTail := false }
        runLines run fuel (hasRun || !c.isEmpty) after (if s.isOn 'n' then s else run c s)

def runText (run : Runner) (t : List Char) (s : State) : State :=
  runLines run (t.length + 2) false (.ofText t) s

/-- Executes the scripts of signals that have come; they leave the status as it was. -/
def answerSignals (run : Runner) (s : State) : State :=
  if s.isStopped || s.pending.isEmpty then s
  else
    s.pending.foldl (fun s n =>
      if s.isStopped then s
      else
        let after := runText run ((s.traps.lookup n).getD []) s
        if after.isStopped then after else after.withStatus s.status) { s with pending := [] }

/-- The end of a script: a trap for it is executed last and keeps the status, unless it exits with
another one. -/
def finish (run : Runner) (s : State) : State :=
  match s.flow with
  | .killed _ => s
  | .endless => s
  | _ =>
    match s.traps.lookup 0 with
    | none => s.exitWith s.status
    | some script =>
      let after :=
        runText run script { s with flow := .onward, traps := s.traps.filter fun t => t.1 != 0 }
      match after.flow with
      | .onward => after.exitWith s.status
      | .killed _ => after
      | .endless => after
      | _ => after.exitWith after.status

/-- After a command whose status is not asked for, its failure may end the script. -/
def checked (s : State) : State :=
  if s.isOn 'e' && !s.tested && s.status != 0 && !s.isStopped then s.exitWith s.status else s

def asking (f : State → State) (s : State) : State :=
  { f { s with tested := true } with tested := s.tested }

/-- Runs a built-in command, which messages name. A fault of it ends the script only if the command
is a special one. -/
def runBuiltin (name : String) (isSpecial : Bool) (f : State → State) (s : State) : State :=
  let after := f { s.pass builtinNanos with speaker := name }
  let after :=
    if after.writeFailed then
      { (after.warnText (name ++ ": I/O error")).withStatus 1 with writeFailed := false }
    else after
  let after := { after with speaker := s.speaker }
  if after.flow == .failed && !isSpecial then { after with flow := .onward } else after

def callFunction (run : Runner) (body : Command) (args : Args) (s : State) : State :=
  if maxDepth ≤ s.depth then
    s.failText ("Maximum function recursion depth (" ++ Decimal.ofNat maxDepth ++ ") reached")
  else
    let after := run body
      { s with args, loops := 0, depth := s.depth + 1, locals := [] :: s.locals, optionOffset := 0 }
    let restored := (after.locals.headD []).foldl (fun t (name, v) => t.setVariable name v) after
    { restored with
      args := s.args
      loops := s.loops
      depth := s.depth
      locals := s.locals
      optionOffset := s.optionOffset
      flow := if after.flow == .returning then .onward else after.flow }

def afterCommand (args : Args) : Except String (Args × Option Bool) :=
  (readOptions "pvV".toList (args.flatten.length + args.length + 1) args).map fun (os, args) =>
    (args, (os.filter fun o => o.1 != 'p').getLast?.map fun o => o.1 == 'V')

/-- Finds the command that is meant behind any number of `command`, and whether there was one. -/
def unwrapCommand (s : State) (fuel : Nat) (words : Args) (wrapped : Bool) : Args × Bool :=
  match fuel, words with
  | fuel + 1, name :: args =>
    if name == "command".toList && (wrapped || !s.functions.any (·.1 == name)) then
      match afterCommand args with
      | .ok (next :: more, none) => unwrapCommand s fuel (next :: more) true
      | _ => (words, wrapped)
    else (words, wrapped)
  | _, words => (words, wrapped)

def runFile (run : Runner) (s : State) (args : Args) : State :=
  match args with
  | [] => s.withStatus 0
  | path :: _ =>
    let text := ByteText.toString path
    let found := s.files.contents text
    match path.contains '/', found with
    | true, .ok content =>
      let after := runText run (ByteText.ofBytes content) { s with speaker := text }
      { after with flow := if after.flow == .returning then .onward else after.flow }
    | true, .error e =>
      s.fail ("cannot open ".toList ++ path ++ (": " ++ openingFault .read e).toList)
    | false, _ => s.fail (path ++ ": not found".toList)

def runRunner (run : Runner) (name : String) (s : State) (args : Args) : State :=
  match name with
  | "eval" => runText run ([' '].intercalate args) s
  | "." => runFile run s args
  | "type" => describeAll true s args
  | "hash" => hash s args
  | "command" =>
    match afterCommand args with
    | .error message => s.failText message
    | .ok (name :: _, some full) => describeAll full s [name]
    | .ok _ => s.withStatus 0
  | _ => s.withStatus 0

/-- Runs a program in place of what runs so far, its own shell being one. Of the traps only those
that ignore a signal are kept. -/
def replaceBy (shell : State → Args → State) (file : String) (program : List Char)
    (args : Args) (s : State) : State :=
  let s := { s with speaker := "", traps := s.traps.filter fun t => t.2.isEmpty && t.1 != 0 }
  let after :=
    if file == "sh" || file == "dash" then
      shell { s with name := program, bindings := s.bindings.filter fun v => v.2.isExported } args
    else runInstalled file args s
  let after := after.receiveSent
  match after.flow with
  | .onward => { after.exitWith after.status with traps := s.traps }
  | _ => after

/-- Runs a program. At the end of a script nothing is left to come back to. -/
def runProgram (shell : State → Args → State) (program : List Char) (args : Args)
    (s : State) : State :=
  match findProgram s program with
  | .error u => s.unfound program u
  | .ok file =>
    if s.isTail && !s.hasTraps then replaceBy shell file program args s
    else
      let s := s.pass splitNanos
      s.rejoin (replaceBy shell file program args s.split)

def replaceScript (shell : State → Args → State) (program : List Char) (args : Args)
    (s : State) : State :=
  match findProgram s program with
  | .error u => { s.unfound program u with flow := .exited }
  | .ok file => replaceBy shell file program args s

def invoke (run : Runner) (shell : State → Args → State) (words : Args) (s : State) : State :=
  let (words, wrapped) := unwrapCommand s (words.length + 1) words false
  match words with
  | [] => s
  | name :: args =>
    let text := ByteText.toString name
    let isSpecial := specialNames.contains text
    let function? := if isSpecial || wrapped then none else s.functions.lookup name
    match function? with
    | some body => callFunction run body args s
    | none =>
      if text == "exec" then
        match args with
        | [] => s.withStatus 0
        | program :: args =>
          runBuiltin text (!wrapped) (replaceScript shell program args) s
      else
        match builtin? text with
        | some f => runBuiltin text (isSpecial && !wrapped) (f · args) s
        | none =>
          if runners.contains text then runBuiltin text (isSpecial && !wrapped)
            (runRunner run text · args) s
          else runProgram shell name args s

def assignWords (run : Runner) (s : State) : List (List Char × Word) → State
  | [] => s
  | (name, w) :: more =>
    let (v, s) := expandValue run w s
    if s.isStopped then s
    else
      let s := s.assign name v
      if s.isStopped then s else assignWords run s more

def trace (s : State) (names : List (List Char)) (words : Args) : State :=
  if s.isOn 'x' then
    let values := names.map fun n => n ++ '=' :: ((s.binding? n).bind (·.value)).getD []
    let mark := (s.parameter "PS4".toList).getD []
    s.write 2 (mark ++ [' '].intercalate (values ++ words) ++ ['\n'])
  else s

def keepsAssignments (s : State) (words : Args) : Bool :=
  match words with
  | [] => true
  | name :: _ =>
    specialNames.contains (ByteText.toString name) && (unwrapCommand s 2 words false).2 == false

/-- The words of a simple command. The arguments of a command that declares variables are taken as
values where they look like assignments. -/
def commandWords (run : Runner) (words : List Word) (s : State) : Args × State :=
  let declares := (words.head?.bind bareText?).any fun t =>
    ["export", "readonly", "local"].contains (String.ofList t)
  words.foldl (fun (fields, s) w =>
    if s.isStopped then (fields, s)
    else
      match if declares then assignment? w else none with
      | some (name, value) =>
        let (v, s) := expandValue run value s
        (fields ++ [name ++ '=' :: v], s)
      | none =>
        let (more, s) := expandFields run w s
        (fields ++ more, s)) ([], s)

def runSimple (run : Runner) (shell : State → Args → State) (assignments : List (List Char × Word))
    (words : List Word) (redirects : List Redirect) (s : State) : State :=
  let (words, s) := commandWords run words { s with substituted := 0 }
  if s.isStopped then s
  else
    let names := assignments.map (·.1)
    let outer := s.descriptors
    let (s, isConnected) := redirectAll run s redirects
    let restore (s : State) : State := { s with descriptors := outer }
    let isSpecial := (words.head?.map ByteText.toString).any specialNames.contains
    if !isConnected then
      let s := restore s
      if s.flow == .onward && isSpecial then { s with flow := .failed } else s
    else
      let before := names.map fun n => (n, s.binding? n)
      let s := assignWords run s assignments
      if s.isStopped then restore s
      else
        let inner := s.descriptors
        let s := { trace { s with descriptors := outer } names words with descriptors := inner }
        match words with
        | [] => restore (s.withStatus s.substituted)
        | _ =>
          let keeps := keepsAssignments s words
          let isExec := words == ["exec".toList]
          let s :=
            if keeps then s
            else
              names.foldl (fun s n =>
                s.setVariable n ((s.binding? n).map fun v => { v with isExported := true })) s
          let after := invoke run shell words s
          let after :=
            if keeps then after else before.foldl (fun t (n, v) => t.setVariable n v) after
          if isExec && after.flow == .onward then after else restore after

def runApart (run : Runner) (c : Command) (s : State) : State :=
  finish run (run c { s.split.pass splitNanos with isTail := true })

def runBeside (run : Runner) (c : Command) (s : State) : State :=
  let begun := s.split.connect 0 (some .nowhere)
  let held := match c with
    | .simple _ _ _ rs => (redirectAll run begun rs).1.heldStreams
    | .redirected _ _ rs => (redirectAll run begun rs).1.heldStreams
    | _ => begun.heldStreams
  let traps := (2, []) :: (3, []) :: begun.traps
  let inner := finish run (run c { begun.pass splitNanos with isTail := true, traps })
  let isEndless := inner.flow == .endless || inner.isLate
  let endsAt := if isEndless then max s.world.limit inner.world.elapsed else inner.world.elapsed
  let p := { inner.asProcess s.pid s.world.elapsed s.ignored with streams := held, endsAt }
  let number := s.jobs.foldl (fun n j => max n j.number) 0 + 1
  let files := { inner.world.files with current := s.world.files.current }
  let world := { inner.world with elapsed := s.world.elapsed + splitNanos / 4, files }
  let s : State :=
    { s with world, jobs := s.jobs ++ [⟨number, p.pid⟩], lastJob := some p.pid, status := 0 }
  s.remember p

def runPiped (run : Runner) (first second : Command) (s : State) : State :=
  let begin := s.world.elapsed
  let (n, s) := s.fresh
  let one := s.rejoin (runApart run first ({ s with tested := true }.connect 1 (some (.stream n))))
  let time := one.closingTime n
  let (input, two) := (one.forget n).addInput { text := one.textOf n, readyAt := time }
  let two := { two with
    descriptors := s.descriptors, status := s.status, tested := s.tested
    world := { two.world with elapsed := begin } }
  let after := two.rejoin (runApart run second ({ two with tested := true }.connect 0 (some input)))
  { after.waitUntil time with descriptors := s.descriptors }

def runCases (body : Command → State → State) (run : Runner) (value : List Char) (s : State) :
    List (List Word × Command) → State
  | [] => s.withStatus 0
  | (patterns, c) :: cases =>
    let (isMatch, s) := patterns.foldl (fun (found, s) w =>
      if found || s.isStopped then (found, s)
      else
        let (p, s) := expandPattern run w s
        (!s.isStopped && Pattern.isMatch p value, s)) (false, s)
    if s.isStopped then s
    else if isMatch then if c.isEmpty then s.withStatus 0 else body c s
    else runCases body run value s cases

/-- Executes a command; fuel bounds the nesting. A shell that is started as a program is left to a
parameter. -/
def run (shell : State → Args → State) (fuel : Nat) (c : Command) (s : State) : State :=
  match fuel with
  | 0 => { s with flow := .endless }
  | fuel + 1 =>
    if s.isStopped then s
    else
      let run' := run shell fuel
      let isTail := s.isTail
      let part (isTail : Bool) (c : Command) (s : State) : State := run' c { s with isTail }
      match c with
      | .list cs =>
        let s := cs.dropLast.foldl (fun s c => run shell fuel c { s with isTail := false }) s
        match cs.getLast? with
        | some c => part isTail c s
        | none => s
      | .simple line assignments words redirects =>
        let s := runSimple (part false) shell assignments words redirects { s with line }
        checked (answerSignals run' s.receiveSent)
      | .redirected line c redirects =>
        let outer := s.descriptors
        let (s, isConnected) := redirectAll run' { s with line } redirects
        let after := if isConnected then part false c s else s
        { after with descriptors := outer }
      | .both a b =>
        let s := asking (part false a) s
        if s.status == 0 then part isTail b s else s
      | .either a b =>
        let s := asking (part false a) s
        if s.status != 0 then part isTail b s else s
      | .negated c =>
        let s := asking (part false c) s
        if s.isStopped then s else s.withStatus (if s.status == 0 then 1 else 0)
      | .piped a b => checked (answerSignals run' (runPiped run' a b s))
      | .background c => runBeside run' c s
      | .subshell line c =>
        let s := { s with line }
        if isTail && !s.hasTraps then finish run' (part true c s)
        else checked (answerSignals run' (s.rejoin (runApart run' c s)))
      | .loop untilTrue condition body =>
        let after := iterate maxRounds (fun s =>
          let asked := asking (part false condition) s
          if asked.isStopped then settle asked
          else if (asked.status == 0) == untilTrue then (asked.withStatus s.status, false)
          else settle (part false body asked)) { s with loops := s.loops + 1, status := 0 }
        { after with loops := s.loops }
      | .each line name words body =>
        let (values, s) := expandWords run' words { s with line }
        if s.isStopped then s
        else
          let s' := if values.isEmpty then s.withStatus 0 else s
          let after := eachValue (part false body) name { s' with loops := s.loops + 1 } values
          { after with loops := s.loops }
      | .branch condition yes no =>
        let s := asking (part false condition) s
        if s.isStopped then s
        else if s.status == 0 then part isTail yes s
        else if no.isEmpty then s.withStatus 0
        else part isTail no s
      | .choose line w cases =>
        let (value, s) := expandWhole run' w { s with line }
        if s.isStopped then s else runCases (part isTail) run' value s cases
      | .define name body =>
        { s with
          functions := (name, body) :: s.functions.filter (fun f => f.1 != name)
          status := 0 }

end HostReach.Shell
