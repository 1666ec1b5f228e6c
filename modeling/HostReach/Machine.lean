import HostReach.Command.Line
import HostReach.Command.Outcome
import HostReach.Error
import HostReach.Lookup.Query
import HostReach.Pid
import HostReach.Shell.Invocation

/-!
A machine that programs run on: its files, its installed programs and its live processes.
-/
namespace HostReach

structure ProcessEntry where
  pid : UInt32
  name : String
  owner : String
  deriving DecidableEq, Repr

structure Machine where
  files : FileTree
  /-- The programs that are found by name. -/
  programs : List String
  processes : List ProcessEntry

namespace Machine

/-- The process table. It gives names; command lines are not read. -/
def snapshot (m : Machine) : List RunningProcess :=
  m.processes.map fun p => ⟨p.pid, p.name, ""⟩

def probe (m : Machine) (target : Int32) : Pid.Probe :=
  if m.processes.any fun p => (p.pid.toNat : Int) == target.toInt then .delivered
  else .refused Pid.Probe.notFound "No such process"

def processExists (answer : Int32 → Pid.Probe) (text : String) : Except Error Bool :=
  Id.run (Pid.isAlive (fun target => pure (answer target)) text)

def ownerOf (m : Machine) (text : String) : Except Error String :=
  match Pid.ofText text with
  | .error fault => .error (.invalidPid text fault)
  | .ok pid =>
    match m.processes.find? fun p => p.pid == pid with
    | none => .error (.processNotFound pid)
    | some p => .ok p.owner

inductive SpawnFault where
  | nulByte
  | refused (e : OsError)
  deriving DecidableEq, Repr

def SpawnFault.message : SpawnFault → String
  | .nulByte => "nul byte found in provided data"
  | .refused e => e.message

def hasNul (s : String) : Bool := s.toList.contains '\x00'

/-- The bytes that an argument has to stay below. -/
def argumentBytesLimit : Nat := 131072

/-- The file name of the program to start. A program given by path must exist and be installed; any
other is looked for among the installed ones, where a name of dots is a directory. -/
def locate (m : Machine) (l : CommandLine) : Except SpawnFault String :=
  if hasNul l.program || l.args.any hasNul then .error .nulByte
  else
    let name := ((Text.splitAt '/' l.program).getLast?).getD ""
    let found : Except OsError String :=
      if l.program.toList.contains '/' then
        match m.files.find l.program with
        | .error e => .error e
        | .ok (_, .directory _) => .error .accessDenied
        | .ok (_, .file _) => if m.programs.contains name then .ok name else .error .accessDenied
      else if FileTree.isTooLong name.toList then .error .nameTooLong
      else if name == "." || name == ".." then .error .accessDenied
      else if m.programs.contains name then .ok name
      else .error .notFound
    match found with
    | .error e => .error (.refused e)
    | .ok name =>
      if l.args.any fun a => argumentBytesLimit ≤ a.utf8ByteSize then
        .error (.refused .argumentsTooLong)
      else .ok name

def endText (s : Shell.State) : Exit :=
  match s.flow with
  | .killed 2 => .failed "signal: interrupt"
  | .killed 9 => .failed "signal: killed"
  | .killed 15 => .failed "signal: terminated"
  | .killed n => .failed ("signal: " ++ Decimal.ofNat n)
  | _ => if s.status == 0 then .success else .failed ("exit status " ++ Decimal.ofNat s.status)

/-- Runs a command line, and says how long that takes. The output is complete when nobody keeps it
open any more; who runs out of time before that is killed, and the output is lost. -/
def run (m : Machine) (l : CommandLine) (limit : Duration) : Outcome × Duration :=
  match m.locate l with
  | .error fault => (⟨"", .spawnFailed fault.message⟩, .zero)
  | .ok name =>
    let s := Shell.start name l.args (.initial m.files m.programs limit.nanos l.program)
    let closing := s.closingTime 0
    if s.flow == .endless || limit.nanos ≤ closing then (⟨"", .timedOut limit⟩, limit)
    else (⟨Shell.ByteText.toString (s.textOf 0), endText s⟩, limit.upTo closing)

def execute (m : Machine) (l : CommandLine) (limit : Duration) : Outcome := (m.run l limit).1

end Machine

end HostReach
