import HostReach.Proofs.Channel.Dialect
import HostReach.Proofs.Channel.Execution

/-!
The dialects that a channel into namespaces remembers, one for each target process. A dialect that
is used without asking for it was found by an earlier request for the same process, though perhaps
in other namespaces of it.
-/
namespace HostReach

def Context.targetPid? (ctx : Context) : Option UInt32 := ctx.namespaceTarget.map (·.pid)

namespace NamespacedChannel

def State.lines (s : State) : List CommandLine := s.host.executions.map (·.line)

variable (c : NamespacedChannel) (ctx : Context)

def releaseArgs : String := Platform.releaseIdProgram ++ " " ++ c.config.releasePath

/-- The dialect that is found when the channel asks for it: what a success of `awk` with a text as
its result tells. -/
def detection (s : State) : Option Platform :=
  let r := ((c.run ctx "awk" c.releaseArgs).run s).1
  if r.success then r.resultText?.map (Platform.ofReleaseId .linux) else none

def probes (t : NamespaceTarget) (s : State) : List CommandLine :=
  if c.refuses s.host "awk" then [] else [c.commandLine t "awk" c.releaseArgs]

variable (script args : String) (s : State)

theorem platforms_run : ((c.run ctx script args).run s).2.platforms = s.platforms := by
  cases ht : ctx.namespaceTarget with
  | none => rw [run_of_no_target args ht]
  | some t =>
    cases h : c.refuses s.host script with
    | true => rw [run_of_refuses args ht h]
    | false => rw [run_of_not_refuses args ht h]

variable {ctx} {t : NamespaceTarget}

theorem lines_run (ht : ctx.namespaceTarget = some t) : ((c.run ctx script args).run s).2.lines =
    s.lines ++ if c.refuses s.host script then [] else [c.commandLine t script args] := by
  cases h : c.refuses s.host script with
  | true => simp [run_of_refuses args ht h]
  | false => simp [run_of_not_refuses args ht h, State.lines]

variable {script args}

theorem callsAwk_commandLine (h : script ∈ Operation.tools) :
    (c.commandLine t script args).callsAwk = false := by
  obtain ⟨first, rest, htext, hawk, -⟩ := Operation.exists_head_of_mem_tools h
  have hpayload : ∃ others, (payload script args).toList = first :: others := by
    unfold payload
    split
    · exact ⟨rest, htext⟩
    · exact ⟨rest ++ (" " ++ args).toList, by simp [htext]⟩
  obtain ⟨others, hpayload⟩ := hpayload
  simp [commandLine, CommandLine.callsAwk, hpayload, List.isPrefixOf, hawk.symm]

theorem callsAwk_commandLine_awk : (c.commandLine t "awk" args).callsAwk = true := by
  have hpayload : ∃ others, (payload "awk" args).toList = 'a' :: 'w' :: 'k' :: others := by
    unfold payload
    split
    · exact ⟨[], rfl⟩
    · exact ⟨(" " ++ args).toList, by simp⟩
  obtain ⟨others, hpayload⟩ := hpayload
  simp [commandLine, CommandLine.callsAwk, hpayload, List.isPrefixOf]

variable {c s}

theorem platform_of_no_target (ht : ctx.namespaceTarget = none) :
    (c.platform ctx).run s = (.standard .linux, s) := by
  simp [platform, ht]
  rfl

theorem platform_of_known {p : Platform} (ht : ctx.namespaceTarget = some t)
    (h : s.platforms.lookup t.pid = some p) : (c.platform ctx).run s = (p, s) := by
  simp [platform, ht, h]
  rfl

theorem platform_of_awk {r : Response} {after : State} (ht : ctx.namespaceTarget = some t)
    (h : s.platforms.lookup t.pid = none)
    (hran : (c.run ctx "awk" c.releaseArgs).run s = (r, after)) :
    (c.platform ctx).run s =
      match Channel.platformOfResponse? .linux r with
      | none => (.standard .linux, after)
      | some p => (p, { after with platforms := (t.pid, p) :: after.platforms }) := by
  unfold platform
  simp only [ht, run_bind, run_get, h, Channel.probePlatform_run hran]
  cases Channel.platformOfResponse? .linux r with
  | none => rfl
  | some p => rfl

theorem platform_of_unknown (ht : ctx.namespaceTarget = some t)
    (h : s.platforms.lookup t.pid = none) :
    let asked := (c.platform ctx).run s
    asked.1 = (c.detection ctx s).getD (.standard .linux) ∧
      asked.2.platforms = ((c.detection ctx s).map (t.pid, ·)).toList ++ s.platforms ∧
      asked.2.lines = s.lines ++ c.probes t s := by
  have hkept := c.platforms_run ctx "awk" c.releaseArgs s
  have hlines := c.lines_run "awk" c.releaseArgs s ht
  rcases hran : (c.run ctx "awk" c.releaseArgs).run s with ⟨r, after⟩
  rw [hran] at hkept hlines
  have hdetection : c.detection ctx s = Channel.platformOfResponse? .linux r := by
    simp only [detection, hran]
    rfl
  rw [hdetection, platform_of_awk ht h hran]
  cases Channel.platformOfResponse? .linux r with
  | none => exact ⟨rfl, hkept, hlines⟩
  | some p => exact ⟨rfl, congrArg ((t.pid, p) :: ·) hkept, hlines⟩

theorem platform_eq (ht : ctx.namespaceTarget = some t) : ((c.platform ctx).run s).1 =
    ((s.platforms.lookup t.pid).or (c.detection ctx s)).getD (.standard .linux) := by
  cases hknown : s.platforms.lookup t.pid with
  | some p => rw [platform_of_known ht hknown]; rfl
  | none => exact (platform_of_unknown ht hknown).1

theorem detection_of_refuses (ht : ctx.namespaceTarget = some t)
    (h : c.refuses s.host "awk" = true) :
    c.detection ctx s = none := by
  rw [detection, run_of_refuses c.releaseArgs ht h]
  rfl

theorem probes_of_detection_some {p : Platform} (ht : ctx.namespaceTarget = some t)
    (h : c.detection ctx s = some p) : c.probes t s = [c.commandLine t "awk" c.releaseArgs] := by
  cases hrefuses : c.refuses s.host "awk" with
  | true =>
    rw [detection_of_refuses ht hrefuses] at h
    cases h
  | false => simp [probes, hrefuses]

theorem detection_eq_some {p : Platform} (h : c.detection ctx s = some p) :
    let r := ((c.run ctx "awk" c.releaseArgs).run s).1
    r.success = true ∧ ∃ text, r.resultText? = some text ∧ p = .ofReleaseId .linux text := by
  simp only [detection] at h
  split at h
  · next hsuccess =>
    obtain ⟨text, htext, rfl⟩ := Option.map_eq_some_iff.mp h
    exact ⟨hsuccess, text, htext, rfl⟩
  · cases h

theorem lookup_remembered (found : Option Platform) (platforms : List (UInt32 × Platform))
    (pid other : UInt32) :
    ((found.map (pid, ·)).toList ++ platforms).lookup other =
      if pid = other then found.or (platforms.lookup other) else platforms.lookup other := by
  cases found with
  | none => simp
  | some p =>
    by_cases h : pid = other
    · simp [h]
    · simp [List.lookup_cons, h, beq_eq_false_iff_ne.mpr (Ne.symm h)]

theorem lookup_platform (c : NamespacedChannel) (ctx : Context) (s : State) (pid : UInt32) :
    ((c.platform ctx).run s).2.platforms.lookup pid =
      (s.platforms.lookup pid).or
        (if ctx.targetPid? = some pid then c.detection ctx s else none) := by
  cases ht : ctx.namespaceTarget with
  | none => simp [platform_of_no_target ht, Context.targetPid?, ht]
  | some t =>
    have htarget : ctx.targetPid? = some pid ↔ t.pid = pid := by simp [Context.targetPid?, ht]
    simp only [htarget]
    cases hknown : s.platforms.lookup t.pid with
    | some p =>
      rw [platform_of_known ht hknown]
      split
      · next hpid => rw [← hpid, hknown, Option.some_or]
      · rw [Option.or_none]
    | none =>
      rw [(platform_of_unknown ht hknown).2.1, lookup_remembered]
      split
      · next hpid => rw [← hpid, hknown, Option.or_none, Option.none_or]
      · rw [Option.or_none]

theorem composable_answer {P : (α : Type) → Action α → Prop} (h : IsComposable P)
    (c : NamespacedChannel) (ownPid : UInt32) {ask : Context → Action Platform} {q : Request}
    (hrun : ∀ script args, P Response (c.run q.context script args))
    (hask : P Platform (ask q.context)) :
    P Answer ({ c.channel ownPid with platform := ask }.answer q) :=
  h.answer c.config.releasePath (fun script args _ => hrun script args)
    (fun _ _ => h.bind (hrun _ _) fun _ => h.pure _) fun _ => hask

theorem keeps_platforms (c : NamespacedChannel) (ownPid : UInt32) (p : Platform) (q : Request) :
    Keeps State.platforms (((c.channel ownPid).knowing p).answer q) :=
  composable_answer (Keeps.isComposable State.platforms) c ownPid
    (c.platforms_run q.context) fun _ => rfl

theorem keeps_of_no_target (c : NamespacedChannel) (ownPid : UInt32) {q : Request}
    (h : q.context.namespaceTarget = none) : Keeps id ((c.channel ownPid).answer q) :=
  composable_answer (Keeps.isComposable id) c ownPid
    (fun _ args _ => congrArg Prod.snd (run_of_no_target args h))
    fun _ => congrArg Prod.snd (platform_of_no_target h)

variable {ownPid : UInt32} {step : HistoryStep State}

/-- What a step finds out about the dialect of a process, or would if it had to ask. -/
def found (c : NamespacedChannel) (pid : UInt32) (step : HistoryStep State) : Option Platform :=
  if step.request.operation.asksDialect ∧ step.request.context.targetPid? = some pid then
    c.detection step.request.context step.before
  else none

theorem found_of_target (hasks : step.request.operation.asksDialect = true)
    (ht : step.request.context.namespaceTarget = some t) :
    c.found t.pid step = c.detection step.request.context step.before :=
  if_pos ⟨hasks, by simp [Context.targetPid?, ht]⟩

theorem lookup_answer (c : NamespacedChannel) (ownPid pid : UInt32) (q : Request) (s : State) :
    (((c.channel ownPid).answer q).run s).2.platforms.lookup pid =
      (s.platforms.lookup pid).or
        (if q.operation.asksDialect ∧
          q.context.targetPid? = some pid then c.detection q.context s else none) := by
  cases hasks : q.operation.asksDialect with
  | false =>
    rw [Channel.answer_of_not_asksDialect hasks (.standard .linux), keeps_platforms]
    simp
  | true =>
    rw [Channel.answer_of_asksDialect hasks, run_bind, keeps_platforms]
    simp only [true_and]
    exact c.lookup_platform q.context s pid

theorem lookup_after (pid : UInt32)
    (hstep : ((c.channel ownPid).answer step.request).run step.before = (step.answer, step.after)) :
    step.after.platforms.lookup pid = (step.before.platforms.lookup pid).or (c.found pid step) := by
  rw [found, ← c.lookup_answer ownPid, hstep]

theorem consults (hasks : step.request.operation.asksDialect = true)
    (ht : step.request.context.namespaceTarget = some t)
    (hstep : ((c.channel ownPid).answer step.request).run step.before = (step.answer, step.after)) :
    let remembered := step.before.platforms.lookup t.pid
    step.Consults (c.channel ownPid) State.lines
      (if remembered.isSome then [] else c.probes t step.before)
      ((remembered.or (c.found t.pid step)).getD (.standard .linux)) := by
  have hps (args : String) (s : State) : ∃ ran,
      ((c.run step.request.context "ps" args).run s).2.lines = s.lines ++ ran ∧
        ∀ l ∈ ran, l.callsAwk = false := by
    refine ⟨_, c.lines_run "ps" args s ht, ?_⟩
    split
    · simp
    · simpa using c.callsAwk_commandLine (by decide)
  rw [found_of_target hasks ht]
  exact HistoryStep.consults_of_memory hasks hstep hps (fun p => platform_of_known ht) fun hnone =>
    (platform_of_unknown ht hnone).imp_right And.right

theorem lookup_before (pid : UInt32) {qs : List Request} {host : Host}
    {earlier later : List (HistoryStep State)}
    (h : history (c.channel ownPid).answer qs ⟨host, []⟩ = earlier ++ step :: later) :
    step.before.platforms.lookup pid = earlier.findSome? (c.found pid) := by
  have hcarries :=
    carries_history (fun s => s.platforms.lookup pid) (c.channel ownPid).answer qs ⟨host, []⟩
  rw [h] at hcarries
  have hsteps (e : HistoryStep State) (he : e ∈ earlier) :
      ((c.channel ownPid).answer e.request).run e.before = (e.answer, e.after) :=
    run_of_mem_history (h ▸ List.mem_append_left _ he)
  exact (hcarries.memory_before fun e he => lookup_after pid (hsteps e he)).trans Option.none_or

/-- A step that has `awk` executed in namespaces of a process and gets a text from it, which tells a
dialect. -/
def Detects (c : NamespacedChannel) (step : HistoryStep State) (pid : UInt32)
    (p : Platform) : Prop :=
  ∃ (t : NamespaceTarget) (others : List CommandLine) (text : String),
    step.request.context.namespaceTarget = some t ∧ t.pid = pid ∧
    step.executed State.lines = c.commandLine t "awk" c.releaseArgs :: others ∧
    let r := ((c.run step.request.context "awk" c.releaseArgs).run step.before).1
    r.success = true ∧ r.resultText? = some text ∧ p = .ofReleaseId .linux text

theorem detects_of_findSome {pid : UInt32} {p : Platform} {qs : List Request} {host : Host}
    {earlier later : List (HistoryStep State)}
    (h : history (c.channel ownPid).answer qs ⟨host, []⟩ = earlier ++ later)
    (hfound : earlier.findSome? (c.found pid) = some p) : ∃ e ∈ earlier, c.Detects e pid p := by
  obtain ⟨before, e, after, rfl, he, hnone⟩ := List.findSome?_eq_some_iff.mp hfound
  rw [List.append_assoc] at h
  -- No step before this one found anything, so nothing is remembered yet and it has to ask.
  have hunknown : e.before.platforms.lookup pid = none := by
    rw [lookup_before pid h, List.findSome?_eq_none_iff]
    exact hnone
  have hstep := run_of_history_eq h
  unfold found at he
  split at he
  · next hfor =>
    obtain ⟨hasks, htarget⟩ := hfor
    obtain ⟨t, ht, rfl⟩ := Option.map_eq_some_iff.mp htarget
    obtain ⟨others, hexecuted, -⟩ := (consults hasks ht hstep).executed
    rw [hunknown, probes_of_detection_some ht he] at hexecuted
    obtain ⟨hsuccess, text, htext, hp⟩ := detection_eq_some he
    exact ⟨e, by simp, t, others, text, ht, rfl, hexecuted, hsuccess, htext, hp⟩
  · cases he

/-- A dialect that a request goes by without `awk` being executed was told by `awk` in namespaces of
the same process, for an earlier request of the history. Only where `awk` is taken for the tool
itself and is not there does a request go by the standard dialect without that. -/
theorem reused_dialect_detected (c : NamespacedChannel) (ownPid : UInt32) (host : Host)
    (qs : List Request) (earlier later : List (HistoryStep State)) (step : HistoryStep State)
    (t : NamespaceTarget)
    (h : history (c.channel ownPid).answer qs ⟨host, []⟩ = earlier ++ step :: later)
    (hasks : step.request.operation.asksDialect = true)
    (ht : step.request.context.namespaceTarget = some t)
    (hquiet : ∀ l ∈ step.executed State.lines, l.callsAwk = false) :
    let Consults := step.Consults (c.channel ownPid) State.lines []
    (∃ e ∈ earlier, ∃ p, c.Detects e t.pid p ∧ Consults p) ∨
      c.config.isSelf "awk" = true ∧ step.before.host.machine.files.isPresent "awk" = false ∧
        Consults (.standard .linux) := by
  intro Consults
  have hstep := run_of_history_eq h
  have hconsults := consults hasks ht hstep
  cases hknown : step.before.platforms.lookup t.pid with
  | some p =>
    rw [lookup_before t.pid h] at hknown
    obtain ⟨e, he, hdetects⟩ := detects_of_findSome h hknown
    rw [lookup_before t.pid h, hknown] at hconsults
    exact .inl ⟨e, he, p, hdetects, hconsults⟩
  | none =>
    -- Nothing is remembered, so the step asks; were that not refused, it would have `awk` executed.
    have hrefuses : c.refuses step.before.host "awk" = true := by
      cases hrefuses : c.refuses step.before.host "awk" with
      | true => rfl
      | false =>
        obtain ⟨others, hexecuted, -⟩ := hconsults.executed
        have hawk :=
          hquiet (c.commandLine t "awk" c.releaseArgs)
            (by simp [hexecuted, hknown, probes, hrefuses])
        rw [callsAwk_commandLine_awk] at hawk
        cases hawk
    rw [hknown, found_of_target hasks ht, detection_of_refuses ht hrefuses] at hconsults
    simp only [probes, hrefuses] at hconsults
    rw [refuses, Bool.and_eq_true, Bool.not_eq_true'] at hrefuses
    exact .inr ⟨hrefuses.1, hrefuses.2, hconsults⟩

theorem answer_psArgs (ctx : Context) (s : State) :
    (((c.channel ownPid).answer ⟨ctx, .psArgs⟩).run s).1 =
    .text ((c.platform ctx).run s).1.psArgs := rfl

def bareHost (outcomes : List Outcome) : Host :=
  ⟨.start, [], .scripted outcomes, ⟨.empty, [], []⟩, [], 7⟩

/-- The dialect that the second request goes by was told by the `awk` of the first one. -/
theorem reused_dialect_detected_other_namespaces :
    let c : NamespacedChannel := ⟨.ofProgramPath "/opt/chaosblade"⟩
    let ctx := fun entersMount => (Context.fresh 0).withNamespace ⟨42, false, entersMount, false⟩
    let qs : List Request := [⟨ctx false, .platform⟩, ⟨ctx true, .psArgs⟩]
    ∃ first second : HistoryStep State,
      history (c.channel 7).answer qs ⟨bareHost [.success "alpine\n"], []⟩ = [first, second] ∧
      ∃ p, c.Detects first 42 p ∧ second.Consults (c.channel 7) State.lines [] p := by
  intro c ctx qs
  refine ⟨_, _, rfl, ?_⟩
  have hreused := reused_dialect_detected c 7 (bareHost [.success "alpine\n"]) qs [_] [] _
    ⟨42, false, true, false⟩ rfl rfl rfl (by decide +kernel)
  obtain ⟨e, he, p, hdetects, hconsults⟩ := hreused.resolve_right fun h => absurd h.1 (by decide)
  rw [List.mem_singleton.mp he] at hdetects
  exact ⟨p, hdetects, hconsults⟩

/-- A dialect that was told in other namespaces of the process is used, although nothing was
executed in those of the request; and where `awk` is the tool itself and not there, the standard one
is used without any `awk`. -/
theorem reused_dialect_not_detected :
    let plain : NamespacedChannel := ⟨.ofProgramPath "/opt/chaosblade"⟩
    let renamed : NamespacedChannel :=
      ⟨{ Config.ofProgramPath "/opt/chaosblade" with selfCommand := "awk" }⟩
    let host := bareHost [.success "alpine\n"]
    let target : NamespaceTarget := ⟨42, false, true, false⟩
    let ctx := (Context.fresh 0).withNamespace target
    let other := (Context.fresh 0).withNamespace ⟨42, false, false, false⟩
    (∃ first second : HistoryStep State,
      history (plain.channel 7).answer [⟨other, .psArgs⟩, ⟨ctx, .psArgs⟩] ⟨host, []⟩ =
        [first, second] ∧
      second.answer = .text (Platform.psArgs ⟨.linux, true⟩) ∧ second.executed State.lines = [] ∧
      ∀ l ∈ second.after.lines, ¬helperOptions target <+: l.args) ∧
    ∃ step : HistoryStep State, history (renamed.channel 7).answer [⟨ctx, .platform⟩] ⟨host, []⟩ =
      [step] ∧
      step.answer = .platform (.standard .linux) ∧ step.after.lines = [] := by
  intro plain renamed host target ctx other
  let middle := (((plain.channel 7).answer ⟨other, .psArgs⟩).run ⟨host, []⟩).2
  have halpine : ((plain.platform ctx).run middle).1 = ⟨.linux, true⟩ := by decide +kernel
  have hstandard : ((renamed.platform ctx).run ⟨host, []⟩).1 = .standard .linux := by decide +kernel
  refine ⟨⟨_, _, rfl, ?_, by decide +kernel, by decide +kernel⟩, _, rfl, ?_, by decide +kernel⟩
  · rw [answer_psArgs]
    exact congrArg (fun p : Platform => Answer.text p.psArgs) halpine
  · exact congrArg Answer.platform hstandard

end NamespacedChannel

end HostReach
