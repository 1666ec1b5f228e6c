import HostReach.Shell.Signal

/-!
Parts of a script that run by themselves: they begin as copies and share nothing but the
surroundings.
-/
namespace HostReach.Shell.State

/-- The state in which a part of the script begins to run by itself. Of the traps only those that
ignore a signal are kept. -/
def split (s : State) : State :=
  let (pid, s) := s.fresh
  { s with
    pid
    parents := s.pid :: s.parents
    traps := s.traps.filter fun t => t.2.isEmpty && t.1 != 0
    pending := []
    jobs := []
    locals := [] }

def finalStatus (s : State) : Nat :=
  match s.flow with
  | .killed n => 128 + n
  | _ => s.status

def asProcess (inner : State) (parent startsAt : Nat) (inherited : List Nat) : Process where
  pid := inner.pid
  parent
  streams := inner.heldStreams
  inherited
  ignored := inner.ignored
  startsAt
  endsAt := inner.world.elapsed
  status := inner.finalStatus
  signal := match inner.flow with
    | .killed n => some n
    | _ => none

/-- Keeps a process in mind. The script itself needs only those that still run and its jobs; a part
of it may turn out to have ended before. -/
def remember (s : State) (p : Process) : State :=
  let isNeeded (q : Process) : Bool :=
    !s.parents.isEmpty || s.world.elapsed < q.endsAt || s.jobs.any (·.pid == q.pid)
  { s with world := { s.world with processes := p :: s.world.processes.filter isNeeded } }

/-- The state after a part that ran by itself. The end of that part is not the end of the script,
unless the part never ends. -/
def rejoin (s inner : State) : State :=
  let files := { inner.world.files with current := s.world.files.current }
  let p := inner.asProcess s.pid s.world.elapsed s.ignored
  let s := { s with world := { inner.world with files }, status := inner.finalStatus }.remember p
  match inner.flow with
  | .endless => { s with flow := .endless }
  | .killed n => (s.reportDeath n).receiveSent
  | _ => s.receiveSent

/-- The time at which nobody keeps a stream open any more. -/
def closingTime (s : State) (stream : Nat) : Nat :=
  s.world.processes.foldl (fun t p => if p.streams.contains stream then max t p.endsAt else t)
    s.world.elapsed

def textOf (s : State) (stream : Nat) : List Char :=
  let pieces := (s.world.written.filter fun p => p.stream == stream).reverse
  (pieces.mergeSort fun a b => a.time ≤ b.time).flatMap (·.text)

def forget (s : State) (stream : Nat) : State :=
  { s with world := { s.world with written := s.world.written.filter fun p => p.stream != stream } }

end HostReach.Shell.State
