import HostReach.Shell.State

/-!
Signals: their names, what they do to a script, and the traps that scripts set for them.
-/
namespace HostReach.Shell

/-- The names of the signals from 0 on, which is the end of the script. -/
def signalNames : List String :=
  ["EXIT", "HUP", "INT", "QUIT", "ILL", "TRAP", "ABRT", "BUS", "FPE", "KILL", "USR1", "SEGV",
    "USR2", "PIPE", "ALRM", "TERM", "16", "CHLD", "CONT", "STOP", "TSTP", "TTIN", "TTOU", "URG",
    "XCPU", "XFSZ", "VTALRM", "PROF", "WINCH", "IO", "PWR", "SYS", "32", "33", "RTMIN"] ++
  (List.range 15).map (fun n => "RTMIN+" ++ Decimal.ofNat (n + 1)) ++
  (List.range 14).map (fun n => "RTMAX-" ++ Decimal.ofNat (14 - n)) ++ ["RTMAX"]

def signalTexts : List (Nat × String) :=
  [(1, "Hangup"), (3, "Quit"), (4, "Illegal instruction"), (5, "Trace/breakpoint trap"),
    (6, "Aborted"), (7, "Bus error"), (8, "Floating point exception"), (9, "Killed"),
    (10, "User defined signal 1"), (11, "Segmentation fault"), (12, "User defined signal 2"),
    (14, "Alarm clock"), (15, "Terminated"), (16, "Stack fault"), (24, "CPU time limit exceeded"),
    (25, "File size limit exceeded"), (26, "Virtual timer expired"),
    (27, "Profiling timer expired"), (29, "I/O possible"), (30, "Power failure"),
    (31, "Bad system call")] ++
  (List.range 31).map fun n => (34 + n, "Real-time signal " ++ Decimal.ofNat n)

def digits? (t : List Char) : Option Nat :=
  if !t.isEmpty && t.all Decimal.isDigit then some (Decimal.toNat t) else none

def signalNumber? (t : List Char) : Option Nat :=
  (digits? t).filter (· < signalNames.length)

def signal? (least : Nat) (t : List Char) : Option Nat :=
  match signalNumber? t with
  | some n => some n
  | none =>
    let name := String.ofList (t.map Char.toUpper)
    ((signalNames.drop least).findIdx? (· == name)).map (· + least)

/-- The signals that do nothing by themselves, and those that stop a process. -/
def harmless : List Nat := [0, 17, 18, 23, 28]

def stopping : List Nat := [19, 20, 21, 22]

namespace State

/-- What a signal does to the script itself: nothing, what a trap says, stopping it for good, or
ending it. The signals 9 and 19 cannot be trapped. -/
def receive (s : State) (signal : Nat) : State :=
  let trap := if signal == 9 || signal == 19 then none else s.traps.lookup signal
  match trap with
  | some script =>
    if script.isEmpty || signal == 0 then s else { s with pending := s.pending ++ [signal] }
  | none =>
    if harmless.contains signal then s
    else if stopping.contains signal then { s with flow := .endless }
    else { s with flow := .killed signal }

/-- Receives the signals that have come up to now. What ends the script has ended it at its time. -/
def receiveSent (s : State) : State :=
  let isDue (t : Sent) : Bool := t.receiver == s.pid && t.time ≤ s.world.elapsed
  let due := s.world.signals.filter isDue
  if due.isEmpty then s
  else
    let s :=
      { s with world := { s.world with signals := s.world.signals.filter fun t => !isDue t } }
    due.foldl (fun s t =>
      match s.flow with
      | .killed _ => s
      | _ =>
        let s := s.receive t.signal
        match s.flow with
        | .killed _ => { s with world := { s.world with elapsed := t.time } }
        | _ => s) s

/-- Waits up to some time, or up to a signal before it that does something, which is returned. -/
def waitOrReceive (s : State) (time : Nat) : State × Option Nat :=
  let isFirst (t : Sent) : Bool :=
    t.receiver == s.pid && t.time < time && !s.ignored.contains t.signal &&
      !harmless.contains t.signal
  match s.world.signals.find? isFirst with
  | some t => ((s.waitUntil t.time).receiveSent, some t.signal)
  | none => (s.waitUntil time, none)

def reportDeath (s : State) (signal : Nat) : State :=
  match signalTexts.lookup signal with
  | some t => s.write 2 (t ++ "\n").toList
  | none => s

end State

/-- Options at the beginning of arguments, and the arguments after them. `known` holds the letters,
a colon after those that take an argument. -/
def readOptions (known : List Char) (fuel : Nat) (args : List (List Char)) :
    Except String (List (Char × List Char) × List (List Char)) :=
  match fuel with
  | 0 => .ok ([], args)
  | fuel + 1 =>
    match args with
    | ['-', '-'] :: args => .ok ([], args)
    | ('-' :: c :: more) :: args =>
      if c == ':' || !known.contains c then .error ("Illegal option -" ++ String.singleton c)
      else
        let takesArgument := ((known.dropWhile (· != c)).drop 1).head? == some ':'
        let next (value : List Char) (args : List (List Char)) :=
          (readOptions known fuel args).map fun (os, args) => ((c, value) :: os, args)
        if takesArgument then
          match more, args with
          | [], value :: args => next value args
          | [], [] => .error ("No arg for -" ++ String.singleton c ++ " option")
          | value, args => next value args
        else if more.isEmpty then next [] args
        else next [] (('-' :: more) :: args)
    | args => .ok ([], args)

def withOptions (known : String) (f : List (Char × List Char) → List (List Char) → State → State)
    (s : State) (args : List (List Char)) : State :=
  match readOptions known.toList (args.flatten.length + args.length + 1) args with
  | .error message => s.failText message
  | .ok (os, args) => f os args s

def count? (t : List Char) : Option Nat :=
  match Arithmetic.integer? true t with
  | some n => if 0 ≤ n && n < Nat.pow 2 31 then some n.toNat else none
  | none => none

def illegalNumber (s : State) (t : List Char) : State := s.fail ("Illegal number: ".toList ++ t)

def killUsage : String :=
  "Usage: kill [-s sigspec | -signum | -sigspec] [pid | job]... or\nkill -l [exitstatus]"

def listSignals (s : State) : List (List Char) → State
  | [] => (s.printText (String.join (("0" :: signalNames.tail).map (· ++ "\n")))).withStatus 0
  | arg :: _ =>
    match count? arg with
    | none => illegalNumber s arg
    | some n =>
      let n := if 128 < n then n - 128 else n
      match signalNames[n]? with
      | some name =>
        if n == 0 then s.fail ("invalid signal number or exit status: ".toList ++ arg)
        else (s.printText (name ++ "\n")).withStatus 0
      | none => s.fail ("invalid signal number or exit status: ".toList ++ arg)

/-- The processes that a process is made of, its last part being one of them, and those that it
begins after some time. -/
def partsOf (p : Process) (now : Nat) (ps : List Process) : List Nat × List Nat :=
  ps.foldl (fun (same, later) q =>
    if same.contains q.parent && q.startsAt ≤ now && q.endsAt == p.endsAt then
      (q.pid :: same, later)
    else if later.contains q.parent || (same.contains q.parent && now < q.startsAt) then
      (same, q.pid :: later)
    else (same, later)) ([p.pid], [])

/-- Ends a process: what it would have done later is not done. -/
def endProcess (s : State) (signal : Nat) (p : Process) : State :=
  let now := s.world.elapsed
  let (same, later) := partsOf p now s.world.processes
  let isUndone (pid time : Nat) : Bool := later.contains pid || (same.contains pid && now ≤ time)
  let ended (q : Process) : Process :=
    if same.contains q.pid then
      { q with endsAt := now, status := 128 + signal, signal := some signal } else q
  { s with world := { s.world with
      processes := (s.world.processes.filter fun q => !later.contains q.pid).map ended
      written := s.world.written.filter fun w => !isUndone w.pid w.time
      signals := s.world.signals.filter fun t => !isUndone t.sender t.time } }

def sendSignal (s : State) (signal : Nat) (pid : Int) : State × Bool :=
  if pid == s.pid then (s.receive signal, true)
  else
    match s.parents.find? fun (p : Nat) => (p : Int) == pid with
    | some receiver =>
      let sent : Sent := ⟨s.world.elapsed, s.pid, receiver, signal⟩
      ({ s with world := { s.world with signals := s.world.signals ++ [sent] } }, true)
    | none =>
      match s.world.processes.find? fun p => (p.pid : Int) == pid && s.world.elapsed < p.endsAt with
      | some p =>
        let ignored := if p.startsAt + splitNanos ≤ s.world.elapsed then p.ignored else p.inherited
        if harmless.contains signal || stopping.contains signal || ignored.contains signal then
          (s, true)
        else (endProcess s signal p, true)
      | none => (s, false)

def processId? (s : State) (t : List Char) : Except (State) Int :=
  match t with
  | '%' :: job =>
    match s.jobs.find? fun j => some j.number == digits? job with
    | some j => .ok j.pid
    | none => .error (s.fail ("No such job: ".toList ++ t))
  | '-' :: digits =>
    match count? digits with
    | some n => .ok (-(n : Int))
    | none => .error (illegalNumber s digits)
  | digits =>
    match count? digits with
    | some n => .ok n
    | none => .error (illegalNumber s digits)

def sendAll (signal : Nat) (s : State) : List (List Char) → State
  | [] => s
  | t :: ts =>
    match processId? s t with
    | .error s => s
    | .ok pid =>
      let (s, reached) := sendSignal s signal pid
      let s := if reached then s else (s.warnText "No such process\n").withStatus 1
      if s.isStopped then s else sendAll signal s ts

def kill (s : State) (args : List (List Char)) : State :=
  let send (s : State) (signal : Option Nat) (args : List (List Char)) : State :=
    if args.isEmpty then s.failText killUsage else sendAll (signal.getD 15) (s.withStatus 0) args
  match args with
  | [] => s.failText killUsage
  | ('-' :: name) :: rest =>
    match signal? 1 name with
    | some n => send s (some n) rest
    | none =>
      withOptions "ls:" (fun os rest s =>
        match os.find? fun o => o.1 == 's' && (signal? 1 o.2).isNone with
        | some (_, name) => s.fail ("invalid signal number or name: ".toList ++ name)
        | none =>
          let named := (os.filter (·.1 == 's')).getLast?.bind fun o => signal? 1 o.2
          if os.any (·.1 == 'l') then
            if named.isSome then s.failText killUsage else listSignals s rest
          else send s named rest) s args
  | args => send s none args

def singleQuoted (fuel : Nat) (t : List Char) : List Char :=
  match fuel with
  | 0 => []
  | fuel + 1 =>
    let plain := t.takeWhile (· != '\x27')
    let t := t.drop plain.length
    let quotes := t.takeWhile (· == '\x27')
    let t := t.drop quotes.length
    ['\x27'] ++ plain ++ ['\x27'] ++
      if quotes.isEmpty then []
      else ['\x22'] ++ quotes ++ ['\x22'] ++ if t.isEmpty then [] else singleQuoted fuel t

def quoted (t : List Char) : List Char := singleQuoted (t.length + 1) t

def setTraps (script : Option (List Char)) (s : State) : List (List Char) → State
  | [] => s.withStatus 0
  | name :: names =>
    match signal? 0 name with
    | none => (s.write 2 ("trap: ".toList ++ name ++ ": bad trap\n".toList)).withStatus 1
    | some n =>
      let others := s.traps.filter fun t => t.1 != n
      setTraps script { s with traps := (script.map fun t => (n, t)).toList ++ others } names

def trap (s : State) (args : List (List Char)) : State :=
  withOptions "" (fun _ args s =>
    match args with
    | [] =>
      let line (n : Nat) : List Char :=
        match s.traps.lookup n, signalNames[n]? with
        | some script, some name =>
          "trap -- ".toList ++ quoted script ++ (" " ++ name ++ "\n").toList
        | _, _ => []
      (s.print ((List.range signalNames.length).flatMap line)).withStatus 0
    | [name] => setTraps none s [name]
    | script :: names =>
      if (signalNumber? script).isSome then setTraps none s (script :: names)
      else setTraps (if script == ['-'] then none else some script) s names) s args

end HostReach.Shell
