import HostReach.Channel.Local
import HostReach.Channel.Namespaced
import HostReach.Proofs.Time

/-!
What one run does. A host that executes a command line records it, takes the outcome from its
executor and changes in nothing else but its clock. On either channel a run is refused, and then
nothing changes, or it executes one command line and answers with the response of the outcome.
-/
namespace HostReach

namespace Host

def outcomeOf (h : Host) (line : CommandLine) (limit : Duration) : Outcome :=
  (h.outcomeAndSpan line limit).1

/-- The execution that comes next: it starts now, and it is over when its time has gone by. -/
def next (h : Host) (line : CommandLine) (limit : Duration) : Execution :=
  ⟨line, limit, h.now, (h.now.after tick).after (h.outcomeAndSpan line limit).2⟩

def withExecution (h : Host) (e : Execution) : Host :=
  { h with
    now := e.endedAt
    spans := h.spans.tail
    executor := h.executor.rest
    executions := h.executions ++ [e] }

variable (h : Host) (e : Execution)

@[simp] theorem withExecution_now : (h.withExecution e).now = e.endedAt := rfl
@[simp] theorem withExecution_executor : (h.withExecution e).executor = h.executor.rest := rfl
@[simp] theorem withExecution_machine : (h.withExecution e).machine = h.machine := rfl
@[simp] theorem withExecution_ownPid : (h.withExecution e).ownPid = h.ownPid := rfl
@[simp] theorem withExecution_executions : (h.withExecution e).executions = h.executions ++ [e] :=
  rfl

@[simp] theorem next_line (line : CommandLine) (limit : Duration) :
    (h.next line limit).line = line := rfl

theorem now_le_endedAt_next (line : CommandLine) (limit : Duration) :
    h.now ≤ (h.next line limit).endedAt :=
  Int.le_trans (h.now.le_after tick) ((h.now.after tick).le_after _)

theorem outcomeOf_of_scripted {h : Host} {os : List Outcome} (hscript : h.executor = .scripted os)
    (line : CommandLine) (limit : Duration) : h.outcomeOf line limit = os.headD (.success "") := by
  unfold outcomeOf outcomeAndSpan
  rw [hscript]

theorem respond_eq (ctx : Context) (ceiling : Duration) (command : String) (line : CommandLine)
    (isSelf : Bool) :
    h.respond ctx ceiling command line isSelf =
      ((h.outcomeOf line (ctx.limit h.now ceiling)).classify command isSelf,
        h.withExecution (h.next line (ctx.limit h.now ceiling))) := rfl

def missingBinary (script : String) : Response := .failWith .binaryNotFound [script]

end Host

namespace LocalChannel

/-- Whether a script looks like a binary of the tool and is not there. -/
def refuses (c : LocalChannel) (h : Host) (script : String) : Bool :=
  c.config.looksInstalled script && !h.machine.files.isPresent script

variable {c : LocalChannel} {s : State} {script : String} (ctx : Context) (args : String)

theorem run_of_refuses (h : c.refuses s.host script = true) :
    (c.run ctx script args).run s = (Host.missingBinary script, s) := by
  simp only [refuses, Bool.and_eq_true, Bool.not_eq_true'] at h
  simp [run, Host.missingBinary?, Host.missingBinary, h.1, h.2]
  rfl

theorem run_of_not_refuses (h : c.refuses s.host script = false) :
    (c.run ctx script args).run s =
      let line := commandLine script args
      let limit := ctx.limit s.host.now c.config.ceiling
      ((s.host.outcomeOf line limit).classify (commandText script args) (c.config.isSelf script),
        { s with host := s.host.withExecution (s.host.next line limit) }) := by
  have hrespond : (c.run ctx script args).run s = (c.respond ctx script args).run s := by
    by_cases hlooks : c.config.looksInstalled script
    · simp only [refuses, hlooks, Bool.true_and, Bool.not_eq_false'] at h
      simp [run, Host.missingBinary?, hlooks, h]
    · simp [run, hlooks]
  rw [hrespond]
  simp only [respond, StateT.run_modifyGet, Host.respond_eq]
  rfl

end LocalChannel

namespace NamespacedChannel

/-- Whether a script is the tool itself and is not there. -/
def refuses (c : NamespacedChannel) (h : Host) (script : String) : Bool :=
  c.config.isSelf script && !h.machine.files.isPresent script

variable {c : NamespacedChannel} {s : State} {ctx : Context} {t : NamespaceTarget} {script : String}
  (args : String)

theorem run_of_no_target (h : ctx.namespaceTarget = none) :
    (c.run ctx script args).run s = (.failWith .illegalCommand [script], s) := by
  simp [run, h]
  rfl

theorem run_of_refuses (ht : ctx.namespaceTarget = some t) (h : c.refuses s.host script = true) :
    (c.run ctx script args).run s = (Host.missingBinary script, s) := by
  simp only [refuses, Bool.and_eq_true, Bool.not_eq_true'] at h
  simp [run, ht, Host.missingBinary?, Host.missingBinary, h.1, h.2]
  rfl

theorem run_of_not_refuses (ht : ctx.namespaceTarget = some t)
    (h : c.refuses s.host script = false) :
    (c.run ctx script args).run s =
      let line := c.commandLine t script args
      let limit := ctx.limit s.host.now c.config.ceiling
      ((s.host.outcomeOf line limit).classify line.display (c.config.isSelf script),
        { s with host := s.host.withExecution (s.host.next line limit) }) := by
  have hrespond : (c.run ctx script args).run s = (c.respond ctx t script args).run s := by
    by_cases hself : c.config.isSelf script
    · simp only [refuses, hself, Bool.true_and, Bool.not_eq_false'] at h
      simp [run, ht, Host.missingBinary?, hself, h]
    · simp [run, ht, hself]
  rw [hrespond]
  simp only [respond, StateT.run_modifyGet, Host.respond_eq]
  rfl

end NamespacedChannel

end HostReach
