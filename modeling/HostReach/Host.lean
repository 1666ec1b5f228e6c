import HostReach.Machine

/-!
What channels act on: a clock, something that executes command lines, and the record of what has
been executed.
-/
namespace HostReach

/-- One execution: what ran, how long it was allowed to, when that was decided, and when it was
over. -/
structure Execution where
  line : CommandLine
  limit : Duration
  startedAt : Instant
  endedAt : Instant
  deriving DecidableEq

inductive Executor where
  /-- Gives these outcomes one after the other, and then success without output. -/
  | scripted (outcomes : List Outcome)
  | machine

def Executor.rest : Executor → Executor
  | .machine => .machine
  | .scripted outcomes => .scripted outcomes.tail

structure Host where
  now : Instant
  /-- How long each scripted execution takes; those that come after these take no time. -/
  spans : List Duration := []
  executor : Executor
  machine : Machine
  /-- What has been executed, the first execution first. -/
  executions : List Execution := []
  ownPid : UInt32

namespace Host

def tick : Duration := ⟨1, by decide⟩

def readClock (h : Host) : Instant × Host := (h.now, { h with now := h.now.after tick })

def outcomeAndSpan (h : Host) (line : CommandLine) (limit : Duration) : Outcome × Duration :=
  match h.executor with
  | .machine => h.machine.run line limit
  | .scripted outcomes => (outcomes.headD (.success ""), h.spans.headD .zero)

def execute (h : Host) (line : CommandLine) (limit : Duration) (startedAt : Instant) :
    Outcome × Host :=
  let (o, span) := h.outcomeAndSpan line limit
  let endedAt := h.now.after span
  (o, { h with
    now := endedAt
    spans := h.spans.tail
    executor := h.executor.rest
    executions := h.executions ++ [Execution.mk line limit startedAt endedAt] })

/-- Executes a command line within the ceiling and the deadline of a context. `command` is what
messages call it. -/
def respond (h : Host) (ctx : Context) (ceiling : Duration) (command : String) (line : CommandLine)
    (isSelf : Bool) : Response × Host :=
  let (now, h) := h.readClock
  let (o, h) := h.execute line (ctx.limit now ceiling) now
  (o.classify command isSelf, h)

def missingBinary? (h : Host) (script : String) : Option Response :=
  if h.machine.files.isPresent script then none else some (.failWith .binaryNotFound [script])

end Host

end HostReach
