import HostReach.Proofs.Channel.HostDialect
import HostReach.Proofs.Channel.TargetDialect
import HostReach.Proofs.Command.Classification
import Mathlib.Data.List.Forall2

/-!
The lookups are the same on the host and inside the namespaces of a process. Given the same
outcomes, a channel of the host with a release file and a channel into namespaces execute as many
command lines for every request that checks for no command, and answer it alike: the two differ in
the command lines, and so in what error texts quote.
-/
namespace HostReach

/-- Responses that differ in nothing but the text of their errors. -/
structure Response.Agrees (r r' : Response) : Prop where
  code : r.code = r'.code
  success : r.success = r'.success
  result : r.result = r'.result

/-- Errors of one kind. Of failed commands the texts may differ. -/
def Error.Agrees : Error → Error → Prop
  | .commandFailed _, .commandFailed _ => True
  | e, e' => e = e'

def Found.Agrees : Found → Found → Prop
  | .ok pids, .ok pids' => pids = pids'
  | .error e, .error e' => e.Agrees e'
  | _, _ => False

def Answer.Agrees : Answer → Answer → Prop
  | .response r, .response r' => r.Agrees r'
  | .found f, .found f' => f.Agrees f'
  | a, a' => a = a'

theorem Outcome.classify_agrees (o : Outcome) (command command' : String) (isSelf isSelf' : Bool) :
    (o.classify command isSelf).Agrees (o.classify command' isSelf') := by
  by_cases hrule : o.MeetsRule
  · rw [classify_of_meetsRule command isSelf hrule, classify_of_meetsRule command' isSelf' hrule]
    exact ⟨rfl, rfl, rfl⟩
  cases hdecode : Envelope.decode o.output with
  | structured r =>
    rw [classify_of_structured command isSelf hrule hdecode,
      classify_of_structured command' isSelf' hrule hdecode]
    exact ⟨rfl, rfl, rfl⟩
  | raw text reason =>
    by_cases hexit : o.exit = .success
    · rw [classify_of_success command isSelf hexit hdecode,
        classify_of_success command' isSelf' hexit hdecode]
      exact ⟨rfl, rfl, rfl⟩
    · obtain ⟨error, -, herror⟩ := exists_says_of_ne_success hexit
      rw [classify_of_failure command isSelf hrule hdecode herror,
        classify_of_failure command' isSelf' hrule hdecode herror]
      exact ⟨rfl, rfl, rfl⟩

theorem Response.Agrees.resultText?_eq {r r' : Response}
    (h : r.Agrees r') : r.resultText? = r'.resultText? := by
  rw [resultText?, resultText?, h.result]

theorem Response.Agrees.platform?_eq {r r' : Response} (h : r.Agrees r')
    (family : Platform.Family) :
    Channel.platformOfResponse? family r = Channel.platformOfResponse? family r' := by
  rw [Channel.platformOfResponse?, Channel.platformOfResponse?, h.success, h.resultText?_eq]

variable {m m' : Type → Type}

theorem Response.Agrees.pids {r r' : Response} (h : r.Agrees r') {c : Channel m} {c' : Channel m'}
    (hpid : c.ownPid = c'.ownPid) : (c.pidsOfResponse r).Agrees (c'.pidsOfResponse r') := by
  rw [Channel.pidsOfResponse, Channel.pidsOfResponse, h.success, h.resultText?_eq, hpid]
  cases r'.success
  · trivial
  · exact rfl

/-- A host takes the next `n` of the outcomes `os`, one for each execution. -/
structure Host.Takes (before after : Host) (os : List Outcome) (n : Nat) : Prop where
  script : before.executor = .scripted os
  rest : after.executor = .scripted (os.drop n)
  executions : after.executions.length = before.executions.length + n

theorem Host.Takes.refl {h : Host} {os : List Outcome} (hscript : h.executor = .scripted os) :
    h.Takes h os 0 :=
  ⟨hscript, hscript, rfl⟩

theorem Host.Takes.trans {before middle after : Host} {os : List Outcome} {n k : Nat}
    (h : before.Takes middle os n) (h' : middle.Takes after (os.drop n) k) :
    before.Takes after os (n + k) where
  script := h.script
  rest := by rw [h'.rest, List.drop_drop]
  executions := by rw [h'.executions, h.executions, Nat.add_assoc]

theorem Host.takes_withExecution {h : Host} {os : List Outcome}
    (hscript : h.executor = .scripted os) (e : Execution) : h.Takes (h.withExecution e) os 1 where
  script := hscript
  rest := by rw [withExecution_executor, hscript, Executor.rest, List.drop_one]
  executions := by rw [withExecution_executions, List.length_append, List.length_singleton]

/-- A state of the host's channel and one of the channel into namespaces of a process, in which both
channels are about to get the same outcomes and remember the same dialect. -/
structure Paired (config : Config) (ownPid pid : UInt32) (os : List Outcome)
    (s : LocalChannel.State) (s' : NamespacedChannel.State) : Prop where
  script : s.host.executor = .scripted os
  script' : s'.host.executor = .scripted os
  ownPid : s.host.ownPid = ownPid
  release : s.host.machine.files.isPresent config.releasePath = true
  dialect : s.platform = s'.platforms.lookup pid

/-- Two actions that take as many outcomes from paired states, give related results and leave paired
states. -/
def InStep {α β : Type} (config : Config) (ownPid pid : UInt32) (R : α → β → Prop)
    (x : LocalChannel.Action α) (y : NamespacedChannel.Action β) : Prop :=
  ∀ os s s', Paired config ownPid pid os s s' → R (x.run s).1 (y.run s').1 ∧ ∃ n,
    s.host.Takes (x.run s).2.host os n ∧ s'.host.Takes (y.run s').2.host os n ∧
    Paired config ownPid pid (os.drop n) (x.run s).2 (y.run s').2

namespace InStep

variable {config : Config} {ownPid pid : UInt32} {α β γ δ : Type} {R : α → β → Prop}
    {S : γ → δ → Prop}
  {x : LocalChannel.Action α} {y : NamespacedChannel.Action β}

theorem pure {a : α} {b : β} (h : R a b) : InStep config ownPid pid R (Pure.pure a) (Pure.pure b) :=
  fun _ _ _ hpaired => ⟨h, 0, .refl hpaired.script, .refl hpaired.script', hpaired⟩

theorem bind {f : α → LocalChannel.Action γ} {g : β → NamespacedChannel.Action δ}
    (h : InStep config ownPid pid R x y)
    (hrest : ∀ a b, R a b → InStep config ownPid pid S (f a) (g b)) :
    InStep config ownPid pid S (x >>= f) (y >>= g) := by
  intro os s s' hpaired
  obtain ⟨hresult, n, htakes, htakes', hmiddle⟩ := h os s s' hpaired
  obtain ⟨hresult', k, hmore, hmore', hafter⟩ := hrest _ _ hresult _ _ _ hmiddle
  rw [run_bind, run_bind]
  refine ⟨hresult', n + k, htakes.trans hmore, htakes'.trans hmore', ?_⟩
  rwa [← List.drop_drop]

theorem map {f : α → γ} {g : β → δ} (h : InStep config ownPid pid R x y)
    (hfg : ∀ a b, R a b → S (f a) (g b)) :
    InStep config ownPid pid S (f <$> x) (g <$> y) := by
  rw [← bind_pure_comp, ← bind_pure_comp]
  exact h.bind fun a b hab => pure (hfg a b hab)

theorem ite {b : Bool} {x' : LocalChannel.Action α} {y' : NamespacedChannel.Action β}
    (h : b = true → InStep config ownPid pid R x y)
    (h' : b = false → InStep config ownPid pid R x' y') :
    InStep config ownPid pid R (if b then x else x') (if b then y else y') := by
  cases b
  · exact h' rfl
  · exact h rfl

end InStep

structure Config.IsForeign (config : Config) (script : String) : Prop where
  isSelf : config.isSelf script = false
  looksInstalled : config.looksInstalled script = false

section Operations

variable {config : Config} {ownPid pid : UInt32} {ctx : Context} (way : LookupWay)

theorem inStep_run (htarget : ctx.targetPid? = some pid) {script : String}
    (hforeign : config.IsForeign script) (args : String) :
    InStep config ownPid pid Response.Agrees (LocalChannel.run ⟨config, way⟩ ctx script args)
      (NamespacedChannel.run ⟨config⟩ ctx script args) := by
  intro os s s' hpaired
  obtain ⟨t, ht, rfl⟩ := Option.map_eq_some_iff.mp htarget
  have hrefuses : LocalChannel.refuses ⟨config, way⟩ s.host script = false := by
    simp [LocalChannel.refuses, hforeign.looksInstalled]
  have hrefuses' : NamespacedChannel.refuses ⟨config⟩ s'.host script = false := by
    simp [NamespacedChannel.refuses, hforeign.isSelf]
  rw [LocalChannel.run_of_not_refuses ctx args hrefuses,
    NamespacedChannel.run_of_not_refuses args ht hrefuses']
  refine ⟨?_, 1, Host.takes_withExecution hpaired.script _,
    Host.takes_withExecution hpaired.script' _, ?_⟩
  · simp only [Host.outcomeOf_of_scripted hpaired.script,
      Host.outcomeOf_of_scripted hpaired.script']
    exact Outcome.classify_agrees _ _ _ _ _
  · exact ⟨(Host.takes_withExecution hpaired.script _).rest,
      (Host.takes_withExecution hpaired.script' _).rest, hpaired.ownPid, hpaired.release,
      hpaired.dialect⟩

theorem inStep_platform (htarget : ctx.targetPid? = some pid) (hawk : config.IsForeign "awk") :
    InStep config ownPid pid Eq (LocalChannel.platform ⟨config, way⟩ ctx)
      (NamespacedChannel.platform ⟨config⟩ ctx) := by
  intro os s s' hpaired
  have hargs : NamespacedChannel.releaseArgs ⟨config⟩ = LocalChannel.releaseArgs ⟨config, way⟩ :=
    rfl
  have hasked :=
    inStep_run way htarget hawk (LocalChannel.releaseArgs ⟨config, way⟩) os s s' hpaired
  obtain ⟨t, ht, rfl⟩ := Option.map_eq_some_iff.mp htarget
  cases hknown : s.platform with
  | some p =>
    have hknown' := hpaired.dialect ▸ hknown
    rw [LocalChannel.platform_of_known hknown, NamespacedChannel.platform_of_known ht hknown']
    exact ⟨rfl, 0, .refl hpaired.script, .refl hpaired.script', hpaired⟩
  | none =>
    have hknown' := hpaired.dialect ▸ hknown
    rcases hran :
        (LocalChannel.run ⟨config, way⟩ ctx "awk" (LocalChannel.releaseArgs ⟨config, way⟩)).run s
      with ⟨r, after⟩
    rcases hran' :
        (NamespacedChannel.run ⟨config⟩ ctx "awk" (NamespacedChannel.releaseArgs ⟨config⟩)).run s'
      with ⟨r', after'⟩
    rw [hran, ← hargs, hran'] at hasked
    obtain ⟨hagrees, n, htakes, htakes', hafter⟩ := hasked
    rw [LocalChannel.platform_of_release (c := ⟨config, way⟩) hknown hpaired.release hran,
      NamespacedChannel.platform_of_awk ht hknown' hran', hagrees.platform?_eq]
    cases Channel.platformOfResponse? .linux r' with
    | none => exact ⟨rfl, n, htakes, htakes', hafter⟩
    | some p =>
      refine ⟨rfl, n, ⟨htakes.script, htakes.rest, htakes.executions⟩,
        ⟨htakes'.script, htakes'.rest, htakes'.executions⟩, ?_⟩
      exact ⟨hafter.script, hafter.script', hafter.ownPid, hafter.release, by simp⟩

end Operations

/-- Whether an operation checks for no command. What tells that a command is there is not the same
on the host and inside namespaces. -/
def Operation.isCheckFree : Operation → Bool
  | .isAvailable _ | .firstUnavailable _ | .pidsOnPort _ | .pidsOnPorts _ => false
  | _ => true

section Requests

variable {config : Config} {ownPid pid : UInt32} (way : LookupWay)

/-- A request that checks for no command and runs no part of the tool. -/
theorem inStep_answer {q : Request} (htarget : q.context.targetPid? = some pid)
    (hfree : q.operation.isCheckFree = true)
    (hforeign : ∀ script args,
      q.operation.MayRun config.selfMarkers config.releasePath q.context script args →
      config.IsForeign script) :
    InStep config ownPid pid Answer.Agrees ((LocalChannel.channel ⟨config, way⟩ ownPid).answer q)
      ((NamespacedChannel.channel ⟨config⟩ ownPid).answer q) := by
  have hrun {script args}
    (h : q.operation.MayRun config.selfMarkers config.releasePath q.context script args) :
      InStep config ownPid pid Response.Agrees
        (LocalChannel.run ⟨config, way⟩ q.context script args)
        (NamespacedChannel.run ⟨config⟩ q.context script args) :=
          inStep_run way htarget (hforeign _ _ h) args
  have hplatform (h : q.operation.MayRun config.selfMarkers config.releasePath q.context "awk"
        (Platform.releaseIdProgram ++ " " ++ config.releasePath)) :
      InStep config ownPid pid Eq (LocalChannel.platform ⟨config, way⟩ q.context)
        (NamespacedChannel.platform ⟨config⟩ q.context) :=
          inStep_platform way htarget (hforeign _ _ h)
  have hpids {r r'} (h : Response.Agrees r r') :
      ((LocalChannel.channel ⟨config, way⟩ ownPid).pidsOfResponse r).Agrees
        ((NamespacedChannel.channel ⟨config⟩ ownPid).pidsOfResponse r') := h.pids rfl
  obtain ⟨ctx, operation⟩ := q
  cases operation with
  | run script args => exact (hrun ⟨rfl, rfl⟩).map fun _ _ h => h
  | platform => exact (hplatform ⟨rfl, rfl⟩).map fun _ _ h => congrArg Answer.platform h
  | psArgs =>
    refine ((hplatform ⟨rfl, rfl⟩).bind fun _ _ h => .pure (congrArg Platform.psArgs h)).map
      fun _ _ h => ?_
    exact congrArg Answer.text h
  | isAlpine =>
    refine ((hplatform ⟨rfl, rfl⟩).bind fun _ _ h => .pure (congrArg Platform.alpine h)).map
      fun _ _ h => ?_
    exact congrArg Answer.flag h
  | pidsByName name =>
    refine InStep.map (R := Found.Agrees) (.ite (fun _ => .pure rfl) fun _ => ?_) fun _ _ h => h
    exact (hrun ⟨rfl, rfl⟩).bind fun _ _ h => .pure (hpids h)
  | pidsByCommandLine keyword =>
    refine InStep.map (R := Found.Agrees) (.ite (fun _ => .pure rfl) fun _ => ?_) fun _ _ h => h
    let PsArgs (text text' : String) : Prop := ∃ p : Platform, text = p.psArgs ∧ text' = p.psArgs
    have hpsArgs : InStep config ownPid pid PsArgs
        ((LocalChannel.channel ⟨config, way⟩ ownPid).psArgs ctx)
        ((NamespacedChannel.channel ⟨config⟩ ownPid).psArgs ctx) := by
      refine (hplatform (.inl ⟨rfl, rfl⟩)).bind fun p _ h => .pure ⟨p, rfl, ?_⟩
      rw [h]
    refine hpsArgs.bind ?_
    rintro _ _ ⟨p, rfl, rfl⟩
    exact (hrun (.inr ⟨p, rfl, rfl⟩)).bind fun _ _ h => .pure (hpids h)
  | isAvailable name => cases hfree
  | firstUnavailable names => cases hfree
  | pidsOnPort port => cases hfree
  | pidsOnPorts ports => cases hfree

end Requests

/-- Two steps for the same request that execute as many command lines, with the same of the outcomes
that both hosts have in store, and whose answers agree. -/
structure StepsAlike (step : HistoryStep LocalChannel.State)
    (step' : HistoryStep NamespacedChannel.State) : Prop where
  request : step.request = step'.request
  answer : step.answer.Agrees step'.answer
  outcomes : ∃ os n, step.before.host.Takes step.after.host os n ∧
    step'.before.host.Takes step'.after.host os n

theorem histories_alike {config : Config} {ownPid pid : UInt32} {qs : List Request}
    {os : List Outcome} {s : LocalChannel.State} {s' : NamespacedChannel.State}
    (hpaired : Paired config ownPid pid os s s')
    (htarget : ∀ q ∈ qs, q.context.targetPid? = some pid)
    (hfree : ∀ q ∈ qs, q.operation.isCheckFree = true)
    (hforeign : ∀ q ∈ qs, ∀ script args,
      q.operation.MayRun config.selfMarkers config.releasePath q.context script args →
      config.IsForeign script) :
    List.Forall₂ StepsAlike (history (LocalChannel.answer ⟨config, .pipeline⟩) qs s)
      (history (NamespacedChannel.channel ⟨config⟩ ownPid).answer qs s') := by
  -- Along the requests the states of both channels stay paired.
  induction qs generalizing os s s' with
  | nil => exact .nil
  | cons q qs ih =>
    have hstep : InStep config ownPid pid _ _ _ :=
      inStep_answer .pipeline (htarget q List.mem_cons_self)
      (hfree q List.mem_cons_self) (hforeign q List.mem_cons_self)
    obtain ⟨hagrees, n, htakes, htakes', hafter⟩ := hstep os s s' hpaired
    have hlocal : (LocalChannel.answer ⟨config, .pipeline⟩ q).run s =
        ((LocalChannel.channel ⟨config, .pipeline⟩ ownPid).answer q).run s := by
      rw [← hpaired.ownPid]
      exact LocalChannel.answer_of_pipeline rfl q s
    rw [← hlocal] at hagrees htakes hafter
    refine .cons ⟨rfl, hagrees, os, n, htakes, htakes'⟩ (ih hafter ?_ ?_ ?_)
    · exact fun q hq => htarget q (List.mem_cons_of_mem _ hq)
    · exact fun q hq => hfree q (List.mem_cons_of_mem _ hq)
    · exact fun q hq => hforeign q (List.mem_cons_of_mem _ hq)

/-- The same requests on a host with a release file and inside the namespaces of one process, by
channels that know no dialect yet, each with the same outcomes in store: however the outcomes turn
out, the steps of both are alike. -/
theorem same_on_host_and_target (config : Config) (pid : UInt32) (host : Host) (os : List Outcome)
    (qs : List Request) (hscript : host.executor = .scripted os)
    (hrelease : host.machine.files.isPresent config.releasePath = true)
    (htarget : ∀ q ∈ qs, q.context.targetPid? = some pid)
    (hfree : ∀ q ∈ qs, q.operation.isCheckFree = true)
    (hforeign : ∀ q ∈ qs, ∀ script args,
      q.operation.MayRun config.selfMarkers config.releasePath q.context script args →
      config.IsForeign script) :
    List.Forall₂ StepsAlike (history (LocalChannel.answer ⟨config, .pipeline⟩) qs ⟨host, none⟩)
      (history (NamespacedChannel.channel ⟨config⟩ host.ownPid).answer qs ⟨host, []⟩) :=
  histories_alike ⟨hscript, hscript, rfl, hrelease, rfl⟩ htarget hfree hforeign

/-- The first question for the dialect fails, the lookup asks again and finds the reduced `ps`, and
what fails in the end is a failure on both sides, whose message quotes another command. -/
theorem same_on_host_and_target_retry :
    let config := Config.ofProgramPath "/opt/chaosblade"
    let host := LocalChannel.releasedHost
      [⟨"awk: not found", .failed "exit status 127"⟩, .success "alpine\n", .success "10 7 12 ",
        ⟨"denied", .failed "exit status 1"⟩]
    let ctx := fun entersNet => (Context.fresh 0).withNamespace ⟨42, true, true, entersNet⟩
    let qs : List Request :=
      [⟨ctx false, .psArgs⟩, ⟨ctx true, .pidsByCommandLine "java"⟩,
        ⟨ctx true, .run "tc" "qdisc del"⟩]
    let executed := fun before after : Host => after.executions.length - before.executions.length
    ∃ first second third first' second' third',
      history (LocalChannel.answer ⟨config, .pipeline⟩) qs ⟨host, none⟩ = [first, second, third] ∧
      history (NamespacedChannel.channel ⟨config⟩ 7).answer qs ⟨host, []⟩ =
        [first', second', third'] ∧
      StepsAlike first first' ∧ StepsAlike second second' ∧ StepsAlike third third' ∧
      [first.answer, second.answer, third.answer] =
        [.text "-eo user,pid,ppid,args", .found (.ok ["10", "12"]), .response
          ⟨63063, false, "`tc qdisc del`: cmd exec failed, err: denied exit status 1", none⟩] ∧
      [first'.answer, second'.answer, third'.answer] =
        [.text "-eo user,pid,ppid,args", .found (.ok ["10", "12"]), .response
          ⟨63063, false,
            "`/opt/chaosblade/bin/nsexec -t 42 -p -m -n -- /bin/sh -c \"tc qdisc del\"`: " ++
            "cmd exec failed, err: denied exit status 1", none⟩] ∧
      [first, second, third].map (fun step => executed step.before.host step.after.host) =
        [1, 2, 1] ∧
      [first', second', third'].map (fun step => executed step.before.host step.after.host) =
        [1, 2, 1] := by
  intro config host ctx qs executed
  have htarget : ∀ q ∈ qs, q.context.targetPid? = some 42 := by
    simp [qs, ctx, Context.targetPid?, Context.withNamespace]
  have hfree : ∀ q ∈ qs, q.operation.isCheckFree = true := by simp [qs, Operation.isCheckFree]
  have hforeign : ∀ q ∈ qs, ∀ script args,
      q.operation.MayRun config.selfMarkers config.releasePath q.context script args →
      config.IsForeign script := by
    intro q hq script args hmay
    have hscript : script = "awk" ∨ script = "ps" ∨ script = "tc" := by
      simp only [qs, List.mem_cons, List.not_mem_nil, or_false] at hq
      rcases hq with rfl | rfl | rfl
      · exact .inl hmay.1
      · rcases hmay with hawk | ⟨_, hps, _⟩
        · exact .inl hawk.1
        · exact .inr (.inl hps)
      · exact .inr (.inr hmay.1)
    rcases hscript with rfl | rfl | rfl
    · exact ⟨by decide, by decide⟩
    · exact ⟨by decide, by decide⟩
    · exact ⟨by decide, by decide⟩
  have hsame :=
    same_on_host_and_target config 42 host _ qs rfl (by decide +kernel) htarget hfree hforeign
  cases hsame with
  | cons hfirst hrest =>
    cases hrest with
    | cons hsecond hrest =>
      cases hrest with
      | cons hthird _ =>
        refine ⟨_, _, _, _, _, _, rfl, rfl, hfirst, hsecond, hthird, ?_, ?_, ?_, ?_⟩
        · decide +kernel
        · decide +kernel
        · decide +kernel
        · decide +kernel

end HostReach
