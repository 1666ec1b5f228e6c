import HostReach.Proofs.Channel.Availability
import HostReach.Proofs.Channel.TargetDialect
import HostReach.Proofs.Text.Trim

/-!
A channel into namespaces that is not told of which process. It then has nowhere to run anything: it
executes nothing, neither looks at nor changes the dialects that it remembers, and what it answers
depends on the operation alone.
-/
namespace HostReach.NamespacedChannel

def illegal (script : String) : Response := ⟨49000, false, "illegal command, err: " ++ script, none⟩

def illegalTool (tool : String) : Error := .commandFailed ("illegal command, err: " ++ tool)

def noSocketTool : Error := .toolNotFound "ss" "get pid by port"

/-- The answer to an operation that has no namespaces to enter. -/
def idleAnswer : Operation → Answer
  | .run script _ => .response (illegal script)
  | .isAvailable _ => .flag false
  | .firstUnavailable names => .refusal (names.head?.map Channel.notFound)
  | .pidsByCommandLine keyword =>
    .found (.error (if Text.isBlank keyword then .invalidArgument "process keyword is blank"
      else illegalTool "ps"))
  | .pidsByName name =>
    .found (.error (if Text.isBlank name then .invalidArgument "processName is blank"
      else illegalTool "pgrep"))
  | .pidsOnPort _ => .found (.error noSocketTool)
  | .pidsOnPorts [] => .found (.error (.invalidArgument "the local port parameter is empty"))
  | .pidsOnPorts (port :: _) => .found (.error (.portLookup port noSocketTool))
  | .platform => .platform (.standard .linux)
  | .psArgs => .text "-eo user,pid,ppid,args"
  | .isAlpine => .flag false

variable {c : NamespacedChannel} {ownPid : UInt32} {ctx : Context} {s : State}

theorem illegal_eq (script : String) :
    Response.failWith .illegalCommand [script] = illegal script := by
  simp only [Response.failWith, Response.fail, Response.failStatus,
    ResultCode.render_illegalCommand]
  rfl

theorem run_illegal (ht : ctx.namespaceTarget = none) (script args : String) :
    ((c.channel ownPid).run ctx script args).run s = (illegal script, s) := by
  rw [← illegal_eq]
  exact run_of_no_target args ht

theorem isAvailable_of_no_target (ht : ctx.namespaceTarget = none) (name : String) :
    ((c.channel ownPid).isAvailable ctx name).run s = (false, s) := by
  show (c.isAvailable ctx name).run s = (false, s)
  rw [isAvailable, run_bind, run_of_no_target _ ht]
  rfl

theorem firstUnavailable_of_no_target (ht : ctx.namespaceTarget = none) (names : List String) :
    ((c.channel ownPid).firstUnavailable? ctx names).run s =
      (names.head?.map Channel.notFound, s) := by
  cases names with
  | nil => rfl
  | cons name names =>
    rw [Channel.firstUnavailable?, run_bind, isAvailable_of_no_target ht, Channel.unavailable_eq]
    rfl

theorem pidsOnPort_of_no_target (ht : ctx.namespaceTarget = none) (port : String) :
    ((c.channel ownPid).pidsOnPort ctx port).run s = (.error noSocketTool, s) := by
  rw [Channel.pidsOnPort, run_bind, isAvailable_of_no_target ht]
  rfl

theorem pidsOnPorts_of_no_target (ht : ctx.namespaceTarget = none) (port : String)
    (ports : List String) :
    ((c.channel ownPid).pidsOnPorts ctx (port :: ports)).run s =
      (.error (.portLookup port noSocketTool), s) := by
  rw [Channel.pidsOnPorts, if_neg (by simp), Channel.pidsOnEach, run_bind,
    pidsOnPort_of_no_target ht]
  rfl

theorem dialect_of_no_target (ht : ctx.namespaceTarget = none) :
    ((c.channel ownPid).platform ctx).run s = (.standard .linux, s) := platform_of_no_target ht

theorem psArgs_of_no_target (ht : ctx.namespaceTarget = none) :
    ((c.channel ownPid).psArgs ctx).run s = ("-eo user,pid,ppid,args", s) := by
  rw [Channel.psArgs, run_bind, dialect_of_no_target ht]
  rfl

theorem isAlpine_of_no_target (ht : ctx.namespaceTarget = none) :
    ((c.channel ownPid).isAlpine ctx).run s = (false, s) := by
  rw [Channel.isAlpine, run_bind, dialect_of_no_target ht]
  rfl

theorem pidsByCommandLine_of_no_target (ht : ctx.namespaceTarget = none) (keyword : String) :
    ((c.channel ownPid).pidsByCommandLine ctx keyword).run s =
      (.error (if Text.isBlank keyword then Channel.keywordIsBlank else illegalTool "ps"), s) := by
  rw [Channel.pidsByCommandLine, Text.isEmpty_trim]
  split
  · rfl
  · rw [run_bind, psArgs_of_no_target ht, run_bind, run_illegal ht]
    rfl

theorem pidsByName_of_no_target (ht : ctx.namespaceTarget = none) (name : String) :
    ((c.channel ownPid).pidsByName ctx name).run s =
      (.error (if Text.isBlank name then Channel.nameIsBlank else illegalTool "pgrep"), s) := by
  rw [Channel.pidsByName, Text.isEmpty_trim]
  split
  · rfl
  · rw [run_bind, run_illegal ht]
    rfl

theorem answer_of_no_target {q : Request} (ht : q.context.namespaceTarget = none) :
    ((c.channel ownPid).answer q).run s = (idleAnswer q.operation, s) := by
  have hmap {α : Type} (f : α → Answer) {x : Action α} {a : α} (hx : x.run s = (a, s)) :
      (f <$> x).run s = (f a, s) := by
    rw [StateT.run_map, hx]
    rfl
  obtain ⟨ctx, operation⟩ := q
  cases operation with
  | run script args => exact hmap _ (run_illegal ht script args)
  | isAvailable name => exact hmap _ (isAvailable_of_no_target ht name)
  | firstUnavailable names => exact hmap _ (firstUnavailable_of_no_target ht names)
  | pidsByCommandLine keyword => exact hmap _ (pidsByCommandLine_of_no_target ht keyword)
  | pidsByName name => exact hmap _ (pidsByName_of_no_target ht name)
  | pidsOnPort port => exact hmap _ (pidsOnPort_of_no_target ht port)
  | pidsOnPorts ports =>
    cases ports with
    | nil => rfl
    | cons port ports => exact hmap _ (pidsOnPorts_of_no_target ht port ports)
  | platform => exact hmap _ (dialect_of_no_target ht)
  | psArgs => exact hmap _ (psArgs_of_no_target ht)
  | isAlpine => exact hmap _ (isAlpine_of_no_target ht)

/-- Requests without a target, however many and of whatever kind, leave every state as it is, what
has been executed and the dialects that are remembered among it, and are answered by their
operations alone. -/
theorem history_without_target (c : NamespacedChannel) (ownPid : UInt32) (s : State)
    (qs : List Request) (h : ∀ q ∈ qs, q.context.namespaceTarget = none) :
    history (c.channel ownPid).answer qs s = qs.map fun q => ⟨q, s, idleAnswer q.operation, s⟩ := by
  induction qs with
  | nil => rfl
  | cons q qs ih =>
    rw [history, answer_of_no_target (h q List.mem_cons_self)]
    exact congrArg _ (ih fun other hother => h other (List.mem_cons_of_mem q hother))

/-- The dialect of a process is remembered; without a target it is not used, and it stays. -/
theorem history_without_target_remembered_dialect :
    let c : NamespacedChannel := ⟨.ofProgramPath "/opt/chaosblade"⟩
    let s : State := ⟨bareHost [.success "/usr/bin/ss"], [(42, ⟨.linux, true⟩)]⟩
    let ctx := Context.fresh 0
    let missing : Error := .toolNotFound "ss" "get pid by port"
    history (c.channel 7).answer
      [⟨ctx, .platform⟩, ⟨ctx, .run "rm" "-rf /tmp/x"⟩, ⟨ctx, .pidsOnPorts ["80", "22"]⟩] s =
      [⟨⟨ctx, .platform⟩, s, .platform ⟨.linux, false⟩, s⟩,
        ⟨⟨ctx, .run "rm" "-rf /tmp/x"⟩, s,
          .response ⟨49000, false, "illegal command, err: rm", none⟩, s⟩,
        ⟨⟨ctx, .pidsOnPorts ["80", "22"]⟩, s, .found (.error (.portLookup "80" missing)), s⟩] := by
  intro c s ctx missing
  refine history_without_target c 7 s _ fun q hq => ?_
  simp only [List.mem_cons, List.not_mem_nil, or_false] at hq
  rcases hq with rfl | rfl | rfl <;> rfl

end HostReach.NamespacedChannel
