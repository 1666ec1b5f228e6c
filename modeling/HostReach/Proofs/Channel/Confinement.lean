import HostReach.Proofs.Channel.Execution
import HostReach.Proofs.Channel.Log

/-!
Whatever is asked of a channel into namespaces, in whatever order, all that it ever executes is the
helper, entering exactly the namespaces that the context of that request names.
-/
namespace HostReach.NamespacedChannel

def State.executions (s : State) : List Execution := s.host.executions

/-- The helper that enters the namespaces of a context's target and hands a script with its
arguments, as one argument, to the shell there. -/
def IsEntry (c : NamespacedChannel) (ctx : Context) (script args : String)
    (l : CommandLine) : Prop :=
  ∃ t : NamespaceTarget, ctx.namespaceTarget = some t ∧
    l.program = c.config.helperPath ∧
    l.args =
      ["-t", Decimal.ofNat t.pid.toNat] ++ (if t.entersPid then ["-p"] else []) ++
        (if t.entersMount then ["-m"] else []) ++ (if t.entersNet then ["-n"] else []) ++
        ["--", "/bin/sh", "-c", if args = "" then script else script ++ " " ++ args]

theorem commandLine_isEntry (c : NamespacedChannel) {ctx : Context} {t : NamespaceTarget}
    (h : ctx.namespaceTarget = some t) (script args : String) :
    c.IsEntry ctx script args (c.commandLine t script args) := by
  refine ⟨t, h, rfl, ?_⟩
  simp [commandLine, helperOptions, payload]

theorem executions_respond (host : Host) (ctx : Context) (ceiling : Duration) (command : String)
    (line : CommandLine) (isSelf : Bool) :
    (host.respond ctx ceiling command line isSelf).2.executions =
      host.executions ++ [host.next line (ctx.limit host.now ceiling)] := by
  rw [Host.respond_eq, Host.withExecution_executions]

theorem respond_adds (c : NamespacedChannel) {ctx : Context} {t : NamespaceTarget}
    (h : ctx.namespaceTarget = some t) (script args : String) :
    Adds State.executions (fun e => c.IsEntry ctx script args e.line)
      (c.respond ctx t script args) := by
  intro s
  refine ⟨_, executions_respond s.host ctx c.config.ceiling
    (c.commandLine t script args).display _ (c.config.isSelf script), ?_⟩
  intro e he
  rw [List.mem_singleton.mp he]
  exact c.commandLine_isEntry h script args

theorem run_adds (c : NamespacedChannel) (ctx : Context) (script args : String) :
    Adds State.executions (fun e => c.IsEntry ctx script args e.line) (c.run ctx script args) := by
  unfold run
  split
  · exact Adds.pure _
  · rename_i t ht
    have hrespond := c.respond_adds ht script args
    split
    · apply Adds.bind Adds.get
      intro s
      split
      · exact Adds.pure _
      · exact hrespond
    · exact hrespond

theorem isAvailable_adds (c : NamespacedChannel) (ctx : Context) (name : String) :
    Adds State.executions (fun e => c.IsEntry ctx "command" ("-v " ++ name) e.line)
      (c.isAvailable ctx name) := by
  unfold isAvailable
  apply Adds.bind (c.run_adds ctx _ _)
  intro r
  exact Adds.pure _

theorem platform_adds (c : NamespacedChannel) (ctx : Context) :
    Adds State.executions
      (fun e => c.IsEntry ctx "awk"
        (Platform.releaseIdProgram ++ " " ++ c.config.releasePath) e.line)
      (c.platform ctx) := by
  unfold platform
  split
  · exact Adds.pure _
  · apply Adds.bind Adds.get
    intro s
    split
    · exact Adds.pure _
    · apply Adds.bind
      · unfold Channel.probePlatform
        split
        · exact Adds.pure _
        · apply Adds.bind (c.run_adds ctx _ _)
          intro r
          exact Adds.pure _
      · intro found
        cases found with
        | none => exact Adds.pure _
        | some p =>
          apply Adds.bind
          · exact Adds.of_log_eq fun _ => rfl
          · intro _
            exact Adds.pure _

theorem channel_logs (c : NamespacedChannel) (ownPid : UInt32) :
    (c.channel ownPid).Logs State.executions c.config.releasePath
      fun ctx script args e => c.IsEntry ctx script args e.line where
  run := c.run_adds
  isAvailable := c.isAvailable_adds
  platform := c.platform_adds

/-- In every history, from every state, each step only adds to what has been executed, and each
execution that it adds enters the namespaces of its own context and runs there one of its own
commands. -/
theorem executions_confined (c : NamespacedChannel) (ownPid : UInt32) (s : State)
    (requests : List Request) (step : HistoryStep State)
    (hstep : step ∈ history (c.channel ownPid).answer requests s) :
    ∃ added : List Execution,
      step.after.host.executions = step.before.host.executions ++ added ∧
      ∀ e ∈ added, ∃ script args,
        step.request.operation.MayRun c.config.selfMarkers c.config.releasePath step.request.context
          script args ∧
        c.IsEntry step.request.context script args e.line := by
  obtain ⟨added, hlog, hadded⟩ := (c.channel_logs ownPid).answer step.request step.before
  rw [run_of_mem_history hstep] at hlog
  exact ⟨added, hlog, hadded⟩

/-- Two targets, one after the other: the second step enters the namespaces of the second one. -/
theorem executions_confined_second_target :
    let c : NamespacedChannel := ⟨.ofProgramPath "/opt/chaosblade"⟩
    let first : Request := ⟨(Context.fresh 0).withNamespace ⟨42, true, false, true⟩, .psArgs⟩
    let second : Request :=
      ⟨(Context.fresh 0).withNamespace ⟨77, false, true, false⟩, .pidsByName "java"⟩
    let s : State :=
      { host := ⟨.start, [], .scripted [.success "alpine"], ⟨.empty, [], []⟩, [], 7⟩ }
    let middle := ((c.channel 7).answer first).run s
    let last := ((c.channel 7).answer second).run middle.2
    ⟨second, middle.2, last.1, last.2⟩ ∈ history (c.channel 7).answer [first, second] s ∧
      ∃ added : List Execution,
        last.2.host.executions = middle.2.host.executions ++ added ∧
        ∀ e ∈ added, ∃ script args,
          second.operation.MayRun c.config.selfMarkers c.config.releasePath
            second.context script args ∧
          c.IsEntry second.context script args e.line := by
  intro c first second s middle last
  have hmem : ⟨second, middle.2, last.1, last.2⟩ ∈ history (c.channel 7).answer [first, second] s :=
    List.mem_cons_of_mem _ List.mem_cons_self
  exact ⟨hmem, executions_confined c 7 s [first, second] _ hmem⟩

end HostReach.NamespacedChannel
