import HostReach.Error
import HostReach.OsError
import HostReach.Text.Blank

/-!
Process ids as text, and asking whether a process is alive.
-/
namespace HostReach.Pid

/-- A process id: a decimal numeral that fits 32 bits, white space around it aside. -/
def ofText (text : String) : Except Decimal.Fault UInt32 :=
  (Decimal.readBelow (Nat.pow 2 32) (Chars.trim text.toList)).map UInt32.ofNat

/-- The signed number that a signal for the process is sent to. Greater ids have none: as signed
numbers they would be negative and address groups of processes. -/
def target? (pid : UInt32) : Option Int32 :=
  if pid.toNat < Nat.pow 2 31 then some pid.toInt32 else none

inductive Probe where
  | delivered
  /-- A refusal, by its number and the text that the operating system has for it. -/
  | refused (number : Nat) (text : String)
  deriving DecidableEq, Repr

def Probe.notFound : Nat := 3

def Probe.notPermitted : Nat := 1

/-- What the answer says about the process; a refusal that says nothing is given back. -/
def Probe.alive : Probe → Except Error Bool
  | .delivered => .ok true
  | .refused number text =>
    if number = notFound then .ok false
    else if number = notPermitted then .ok true
    else .error (.io (OsError.numbered number text))

def isAlive {m : Type → Type} [Monad m] (ask : Int32 → m Probe)
    (text : String) : m (Except Error Bool) :=
  match ofText text with
  | .error fault => return .error (.invalidPid text fault)
  | .ok pid =>
    if pid == 0 then return .ok false
    else
      match target? pid with
      | none => return .ok false
      | some target => return (← ask target).alive

end HostReach.Pid
