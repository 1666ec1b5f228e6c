import HostReach.Shell.Arithmetic
import HostReach.Shell.Command
import HostReach.Shell.Option
import HostReach.Shell.Pattern

/-!
What a running script has. Its surroundings (files, streams, the time that has passed) are shared
with the parts of it that run by themselves; all else, such as its variables, is its own.
-/
namespace HostReach.Shell

-- What a round of a loop takes, a command of the shell, beginning to run by itself, and starting a
-- program.

def roundNanos : Nat := 10000

def builtinNanos : Nat := 1000

def splitNanos : Nat := 200000

def startNanos : Nat := 1000000

structure Piece where
  time : Nat
  stream : Nat
  pid : Nat
  text : List Char

structure Input where
  text : List Char
  readyAt : Nat := 0

/-- A program, or a part of a script that runs by itself, with the streams that it keeps open and
the signals that do nothing to it, at first and once it has begun. -/
structure Process where
  pid : Nat
  parent : Nat
  streams : List Nat
  inherited : List Nat
  ignored : List Nat
  startsAt : Nat
  endsAt : Nat
  status : Nat
  /-- What has ended it before its end. -/
  signal : Option Nat
  deriving DecidableEq, Repr

structure Sent where
  time : Nat
  sender : Nat
  receiver : Nat
  signal : Nat
  deriving DecidableEq, Repr

structure World where
  files : FileTree
  programs : List String
  /-- Nanoseconds passed, and the number after which nobody waits any more. -/
  elapsed : Nat := 0
  limit : Nat
  /-- What has been written, the last piece first. -/
  written : List Piece := []
  inputs : List (Nat × Input) := []
  /-- The processes that the script has begun, the last one to be known first. -/
  processes : List Process := []
  signals : List Sent := []
  /-- A number that no stream, input or process has. -/
  fresh : Nat

inductive Target where
  | stream (n : Nat)
  | input (n : Nat)
  | file (p : FileTree.Place)
  | nowhere
  | full
  deriving DecidableEq, Repr

structure Variable where
  value : Option (List Char)
  isExported : Bool := false
  isReadOnly : Bool := false
  deriving DecidableEq, Repr

inductive Flow where
  | onward
  /-- Leaving loops, or going on with the next round of the last one left. -/
  | leaving (loops : Nat)
  | repeating (loops : Nat)
  | returning
  /-- A fault on the way to the end of the script. -/
  | failed
  | exited
  | killed (signal : Nat)
  /-- The script does not end by itself. -/
  | endless
  deriving DecidableEq, Repr

structure Job where
  number : Nat
  pid : Nat
  deriving DecidableEq, Repr

structure State where
  world : World
  /-- The name that the script goes by in its own messages. -/
  name : List Char
  args : List (List Char) := []
  /-- The command that messages name, and the line that they give. -/
  speaker : String := ""
  line : Nat := 1
  bindings : List (List Char × Variable) := []
  functions : List (List Char × Command) := []
  aliases : List (List Char × List Char) := []
  documents : List (Nat × Word) := []
  announced : Nat := 0
  descriptors : List (Nat × Target)
  status : Nat := 0
  flow : Flow := .onward
  /-- How many loops and functions are being executed, one inside the other. -/
  loops : Nat := 0
  depth : Nat := 0
  /-- What the local variables of functions were before, the innermost function first. -/
  locals : List (List (List Char × Option Variable)) := []
  options : List Char := []
  /-- Scripts for signals, an empty one ignoring its signal; number 0 is the end of the script. -/
  traps : List (Nat × List Char) := []
  /-- The signals that have come and whose scripts are not yet executed. -/
  pending : List Nat := []
  mask : Nat := 0o022
  jobs : List Job := []
  lastJob : Option Nat := none
  pid : Nat
  /-- The process id that the script is told to be its own, and the processes that it is a part
  of. -/
  scriptPid : Nat
  parents : List Nat := []
  /-- Whether the script ends after the command that is executed. -/
  isTail : Bool := false
  writeFailed : Bool := false
  /-- How many characters of an argument have been read as options. -/
  optionOffset : Nat := 0
  substituted : Nat := 0
  /-- Whether the status is asked for, so that a failure does not end the script. -/
  tested : Bool := false

namespace State

def isLate (s : State) : Bool := s.world.limit ≤ s.world.elapsed

/-- Whether nothing more is executed at this place of the script. -/
def isStopped (s : State) : Bool := s.flow != .onward || s.isLate

def withStatus (s : State) (status : Nat) : State := { s with status }

def exitWith (s : State) (status : Nat) : State :=
  { s with status := status % 256, flow := .exited }

def pass (s : State) (nanos : Nat) : State :=
  { s with world := { s.world with elapsed := s.world.elapsed + nanos } }

def waitUntil (s : State) (time : Nat) : State :=
  { s with world := { s.world with elapsed := max s.world.elapsed time } }

/-- Whether traps have scripts, so that the script outlives its last command. -/
def hasTraps (s : State) : Bool := s.traps.any fun t => !t.2.isEmpty

def ignored (s : State) : List Nat := (s.traps.filter (·.2.isEmpty)).map (·.1)

def isOn (s : State) (option : Char) : Bool := s.options.contains option

def files (s : State) : FileTree := s.world.files

/-- Does something to the files; the place that relative paths start from is the script's own. -/
def putFile (s : State) (p : FileTree.Place) (content : List UInt8) : State :=
  { s with world := { s.world with files := s.world.files.put p (.file content) } }

def target? (s : State) (descriptor : Nat) : Option Target := s.descriptors.lookup descriptor

def connect (s : State) (descriptor : Nat) (t : Option Target) : State :=
  let others := s.descriptors.filter fun d => d.1 != descriptor
  { s with descriptors := (t.map fun t => (descriptor, t)).toList ++ others }

def write (s : State) (descriptor : Nat) (t : List Char) : State :=
  match s.target? descriptor with
  | some (.stream n) =>
    let piece : Piece := ⟨s.world.elapsed, n, s.pid, t⟩
    { s with world := { s.world with written := piece :: s.world.written } }
  | some (.file p) =>
    match s.files.at? p with
    | some (.file content) => s.putFile p (content ++ ByteText.toBytes t)
    | _ => s
  | some .nowhere => s
  | _ => { s with writeFailed := true }

def print (s : State) (t : List Char) : State := s.write 1 t

def printText (s : State) (t : String) : State := s.print (ByteText.ofString t)

def warn (s : State) (t : List Char) : State :=
  let failed := s.writeFailed
  let speaker := if s.speaker.isEmpty then "" else s.speaker ++ ": "
  let s :=
    s.write 2
      (s.name ++ ByteText.ofString (": " ++ Decimal.ofNat s.line ++ ": " ++ speaker) ++ t ++ ['\n'])
  { s with writeFailed := failed }

def warnText (s : State) (t : String) : State := s.warn (ByteText.ofString t)

/-- A fault: a message, and no command after this one, unless the command is one that may fail. -/
def fail (s : State) (t : List Char) : State := { s.warn t with status := 2, flow := .failed }

def failText (s : State) (t : String) : State := s.fail (ByteText.ofString t)

def readable (s : State) (descriptor : Nat) : Option Input :=
  match s.target? descriptor with
  | some (.input n) => some ((s.world.inputs.lookup n).getD { text := [] })
  | some .nowhere => some { text := [] }
  | some (.file _) => some { text := [] }
  | some .full => some { text := [] }
  | some (.stream _) => none
  | none => none

def setReadable (s : State) (descriptor : Nat) (text : List Char) : State :=
  match s.target? descriptor with
  | some (.input n) =>
    let inputs := (n, { text }) :: s.world.inputs.filter fun i => i.1 != n
    { s with world := { s.world with inputs } }
  | _ => s

def fresh (s : State) : Nat × State :=
  (s.world.fresh, { s with world := { s.world with fresh := s.world.fresh + 1 } })

def addInput (s : State) (i : Input) : Target × State :=
  let (n, s) := s.fresh
  (.input n, { s with world := { s.world with inputs := (n, i) :: s.world.inputs } })

def heldStreams (s : State) : List Nat :=
  s.descriptors.filterMap fun d => match d.2 with
    | .stream n => some n
    | _ => none

def binding? (s : State) (name : List Char) : Option Variable := s.bindings.lookup name

def setVariable (s : State) (name : List Char) (v : Option Variable) : State :=
  let others := s.bindings.filter fun e => e.1 != name
  { s with bindings := (v.map fun v => (name, v)).toList ++ others }

def assign (s : State) (name value : List Char) : State :=
  match s.binding? name with
  | some v =>
    if v.isReadOnly then s.fail (name ++ ": is read only".toList)
    else
      let s := if name == "OPTIND".toList then { s with optionOffset := 0 } else s
      s.setVariable name (some { v with value := some value })
  | none =>
    s.setVariable name (some { value := some value, isExported := s.isOn 'a' })

def fieldSeparators (s : State) : Option (List Char) := (s.binding? "IFS".toList).bind (·.value)

def separators (s : State) : List Char := s.fieldSeparators.getD [' ', '\t', '\n']

def joinedArgs (s : State) : List Char :=
  match s.fieldSeparators with
  | none => [' '].intercalate s.args
  | some [] => s.args.flatten
  | some (c :: _) => [c].intercalate s.args

def decimal (n : Nat) : List Char := (Decimal.ofNat n).toList

def parameter (s : State) (name : List Char) : Option (List Char) :=
  match name with
  | ['#'] => some (decimal s.args.length)
  | ['?'] => some (decimal s.status)
  | ['$'] => some (decimal s.scriptPid)
  | ['@'] => some s.joinedArgs
  | ['*'] => some s.joinedArgs
  | ['!'] => s.lastJob.map decimal
  | ['-'] => some (optionLetters s.options)
  | name =>
    if !name.isEmpty && name.all Decimal.isDigit then
      match Decimal.toNat name with
      | 0 => some s.name
      | n + 1 => s.args[n]?
    else (s.binding? name).bind (·.value)

def directoryText (s : State) : List Char :=
  if s.files.current.isEmpty then ['/']
  else s.files.current.flatMap fun name => '/' :: ByteText.ofString (String.ofList name)

end State

end HostReach.Shell
