import HostReach.Proofs.Channel.Dialect
import HostReach.Proofs.Channel.Execution

/-!
The dialect that the channel of the host remembers. It is the first one found, for good: until then
every operation that goes by the dialect asks for it anew, and from then on none does, whatever
becomes of the host.
-/
namespace HostReach

structure Visit where
  host : Host
  request : Request

namespace LocalChannel

def State.lines (s : State) : List CommandLine := s.host.executions.map (·.line)

def answer (c : LocalChannel) (q : Request) : Action Answer := do
  match q.operation with
  | .pidsByCommandLine keyword => return .found (← c.pidsByCommandLine q.context keyword)
  | .pidsByName name => return .found (← c.pidsByName q.context name)
  | _ => (c.channel (← get).host.ownPid).answer q

/-- The steps of requests that are answered one after the other. Anything may happen to the host
between two of them; what the channel itself keeps is the dialect it remembers. -/
def visits (c : LocalChannel) : List Visit → Option Platform → List (HistoryStep State)
  | [], _ => []
  | v :: vs, remembered =>
      let before : State := ⟨v.host, remembered⟩
      let done := (c.answer v.request).run before
      ⟨v.request, before, done.1, done.2⟩ :: c.visits vs done.2.platform

variable (c : LocalChannel) (ctx : Context)

def releaseArgs : String := Platform.releaseIdProgram ++ " " ++ c.config.releasePath

/-- The dialect that is found when the channel asks for it: the standard one where there is no
release file, and else the one that a success of `awk` with a text as its result tells. -/
def detection (s : State) : Option Platform :=
  if s.host.machine.files.isPresent c.config.releasePath then
    let r := ((c.run ctx "awk" c.releaseArgs).run s).1
    if r.success then r.resultText?.map (Platform.ofReleaseId .linux) else none
  else some (.standard .linux)

def probes (s : State) : List CommandLine :=
  if s.host.machine.files.isPresent c.config.releasePath && !c.refuses s.host "awk" then
    [commandLine "awk" c.releaseArgs]
  else []

variable (script args : String) (s : State)

theorem platform_run : ((c.run ctx script args).run s).2.platform = s.platform := by
  cases h : c.refuses s.host script with
  | true => rw [run_of_refuses ctx args h]
  | false => rw [run_of_not_refuses ctx args h]

theorem lines_run : ((c.run ctx script args).run s).2.lines =
    s.lines ++ if c.refuses s.host script then [] else [commandLine script args] := by
  cases h : c.refuses s.host script with
  | true => simp [run_of_refuses ctx args h]
  | false => simp [run_of_not_refuses ctx args h, State.lines]

variable {script args}

theorem run_adds :
    Adds State.lines (fun l => l = commandLine script args) (c.run ctx script args) := by
  intro s
  refine ⟨_, c.lines_run ctx script args s, ?_⟩
  split
  · simp
  · simp

theorem callsAwk_commandLine (h : script ∈ Operation.tools) :
    (commandLine script args).callsAwk = false := by
  obtain ⟨first, rest, htext, hawk, hspace⟩ := Operation.exists_head_of_mem_tools h
  simp [commandLine, CommandLine.callsAwk, Text.escapeSpaces, htext, hspace, List.isPrefixOf,
    hawk.symm]

variable {c ctx s}

theorem platform_of_known {p : Platform} (h : s.platform = some p) :
    (c.platform ctx).run s = (p, s) := by
  simp [platform, h]
  rfl

theorem platform_of_no_release (h : s.platform = none)
    (hrelease : s.host.machine.files.isPresent c.config.releasePath = false) :
    (c.platform ctx).run s =
      (.standard .linux, { s with platform := some (.standard .linux) }) := by
  simp [platform, h, hrelease, Channel.probePlatform]
  rfl

theorem platform_of_release {r : Response} {after : State} (h : s.platform = none)
    (hrelease : s.host.machine.files.isPresent c.config.releasePath = true)
    (hran : (c.run ctx "awk" c.releaseArgs).run s = (r, after)) :
    (c.platform ctx).run s =
      match Channel.platformOfResponse? .linux r with
      | none => (.standard .linux, after)
      | some p => (p, { after with platform := some p }) := by
  unfold platform
  simp only [run_bind, run_get, h, hrelease, Bool.not_true, Channel.probePlatform_run hran]
  cases Channel.platformOfResponse? .linux r with
  | none => rfl
  | some p => rfl

theorem platform_of_unknown (h : s.platform = none) :
    let asked := (c.platform ctx).run s
    asked.1 = (c.detection ctx s).getD (.standard .linux) ∧ asked.2.platform = c.detection ctx s ∧
      asked.2.lines = s.lines ++ c.probes s := by
  cases hrelease : s.host.machine.files.isPresent c.config.releasePath with
  | false => simp [platform_of_no_release h hrelease, detection, probes, hrelease, State.lines]
  | true =>
    have hkept := c.platform_run ctx "awk" c.releaseArgs s
    have hlines := c.lines_run ctx "awk" c.releaseArgs s
    rcases hran : (c.run ctx "awk" c.releaseArgs).run s with ⟨r, after⟩
    rw [hran, h] at hkept
    rw [hran] at hlines
    have hdetection : c.detection ctx s = Channel.platformOfResponse? .linux r := by
      simp only [detection, hrelease, if_true, hran]
      rfl
    have hprobes : c.probes s =
        if c.refuses s.host "awk" then [] else [commandLine "awk" c.releaseArgs] := by
      cases hrefuses : c.refuses s.host "awk" with
      | true => simp [probes, hrefuses]
      | false => simp [probes, hrefuses, hrelease]
    rw [platform_of_release h hrelease hran, hdetection, hprobes]
    cases Channel.platformOfResponse? .linux r with
    | none => exact ⟨rfl, hkept, hlines⟩
    | some p => exact ⟨rfl, rfl, hlines⟩

theorem probes_of_detection_none (h : c.detection ctx s = none) :
    c.probes s = if c.refuses s.host "awk" then [] else [commandLine "awk" c.releaseArgs] := by
  cases hrelease : s.host.machine.files.isPresent c.config.releasePath with
  | false => simp [detection, hrelease] at h
  | true =>
    cases hrefuses : c.refuses s.host "awk" with
    | true => simp [probes, hrefuses]
    | false => simp [probes, hrelease, hrefuses]

theorem probes_of_detection_some {p : Platform} (h : c.detection ctx s = some p) :
    c.probes s =
      if s.host.machine.files.isPresent c.config.releasePath then [commandLine "awk" c.releaseArgs]
      else [] := by
  cases hrelease : s.host.machine.files.isPresent c.config.releasePath with
  | false => simp [probes, hrelease]
  | true =>
    cases hrefuses : c.refuses s.host "awk" with
    | true =>
      rw [detection, if_pos hrelease, run_of_refuses ctx _ hrefuses] at h
      cases h
    | false => simp [probes, hrelease, hrefuses]

theorem channel_logs (c : LocalChannel) (ownPid : UInt32) :
    (c.channel ownPid).Logs State.lines c.config.releasePath
      fun _ script args l => l = commandLine script args where
  run ctx _ _ := c.run_adds ctx
  isAvailable ctx _ := (c.run_adds ctx).bind fun _ => Adds.pure _
  platform ctx s := by
    cases h : s.platform with
    | some p => exact ⟨[], by simp [channel, platform_of_known h], by simp⟩
    | none =>
      refine ⟨c.probes s, (platform_of_unknown h).2.2, ?_⟩
      unfold probes
      split
      · simp [releaseArgs]
      · simp

theorem composable_answer {P : (α : Type) → Action α → Prop} (h : IsComposable P) (c : LocalChannel)
    (ownPid : UInt32) {ask : Context → Action Platform} {q : Request}
    (hrun : ∀ script args, P Response (c.run q.context script args))
    (hask : P Platform (ask q.context)) :
    P Answer ({ c.channel ownPid with platform := ask }.answer q) :=
  h.answer c.config.releasePath (fun script args _ => hrun script args)
    (fun _ _ => h.bind (hrun _ _) fun _ => h.pure _) fun _ => hask

theorem keeps_platform (c : LocalChannel) (ownPid : UInt32) (p : Platform) (q : Request) :
    Keeps State.platform (((c.channel ownPid).knowing p).answer q) :=
  composable_answer (Keeps.isComposable State.platform) c ownPid
    (c.platform_run q.context) fun _ => rfl

theorem answer_of_pipeline (h : c.way = .pipeline) (q : Request) (s : State) :
    (c.answer q).run s = ((c.channel s.host.ownPid).answer q).run s := by
  obtain ⟨ctx, operation⟩ := q
  cases operation with
  | pidsByCommandLine keyword =>
    simp only [answer, pidsByCommandLine, h]
    rfl
  | pidsByName name =>
    simp only [answer, pidsByName, h]
    rfl
  | _ => rfl

variable {step : HistoryStep State}

/-- What a step finds out about the dialect, or would if it had to ask. -/
def found (c : LocalChannel) (step : HistoryStep State) : Option Platform :=
  if step.request.operation.asksDialect then c.detection step.request.context step.before else none

theorem platform_after (h : c.way = .pipeline)
    (hstep : (c.answer step.request).run step.before = (step.answer, step.after)) :
    step.after.platform = step.before.platform.or (c.found step) := by
  have hafter : step.after =
      (((c.channel step.before.host.ownPid).answer step.request).run step.before).2 := by
    rw [← answer_of_pipeline h, hstep]
  cases hasks : step.request.operation.asksDialect with
  | false =>
    rw [hafter, Channel.answer_of_not_asksDialect hasks (.standard .linux), keeps_platform]
    simp [found, hasks]
  | true =>
    rw [hafter, Channel.answer_of_asksDialect hasks, run_bind, keeps_platform, found, if_pos hasks]
    cases hknown : step.before.platform with
    | some p =>
      exact congrArg (fun asked => State.platform asked.2)
        (platform_of_known hknown) |>.trans hknown
    | none => exact (platform_of_unknown hknown).2.1

theorem consults (h : c.way = .pipeline) (hasks : step.request.operation.asksDialect = true)
    (hstep : (c.answer step.request).run step.before = (step.answer, step.after)) :
    step.Consults (c.channel step.before.host.ownPid) State.lines
      (if step.before.platform.isSome then [] else c.probes step.before)
      ((step.before.platform.or (c.found step)).getD (.standard .linux)) := by
  rw [answer_of_pipeline h] at hstep
  have hps (args : String) (s : State) : ∃ ran,
      ((c.run step.request.context "ps" args).run s).2.lines = s.lines ++ ran ∧
        ∀ l ∈ ran, l.callsAwk = false := by
    obtain ⟨ran, hran, hlines⟩ := c.run_adds step.request.context s
    exact ⟨ran, hran, fun l hl => by rw [hlines l hl, callsAwk_commandLine (by decide)]⟩
  rw [found, if_pos hasks]
  exact HistoryStep.consults_of_memory hasks hstep hps (fun p => platform_of_known) fun hnone =>
    (platform_of_unknown hnone).imp_right And.right

theorem executed_of_not_asksDialect (h : c.way = .pipeline)
    (hasks : step.request.operation.asksDialect = false)
    (hstep : (c.answer step.request).run step.before = (step.answer, step.after)) :
    ∃ others, step.after.lines = step.before.lines ++ others ∧ ∀ l ∈ others, l.callsAwk = true →
      ∃ script args, step.request.operation = .run script args ∧ l = commandLine script args := by
  rw [answer_of_pipeline h] at hstep
  obtain ⟨others, hlines, hothers⟩ :=
    (c.channel_logs step.before.host.ownPid).answer_of_not_asksDialect hasks step.before
  rw [hstep] at hlines
  refine ⟨others, hlines, fun l hl hawk => ?_⟩
  obtain ⟨script, args, rfl, hrun | htool⟩ := hothers l hl
  · exact ⟨script, args, hrun, rfl⟩
  · rw [callsAwk_commandLine htool] at hawk
    cases hawk

variable {vs : List Visit} {k : Option Platform}

theorem run_of_mem_visits (h : step ∈ c.visits vs k) :
    (c.answer step.request).run step.before = (step.answer, step.after) := by
  induction vs generalizing k with
  | nil => simp [visits] at h
  | cons v vs ih =>
    rcases List.mem_cons.mp h with rfl | h
    · rfl
    · exact ih h

theorem carries_visits : Carries State.platform k (c.visits vs k) := by
  induction vs generalizing k with
  | nil => trivial
  | cons v vs ih => exact ⟨rfl, ih⟩

/-- The dialect of the host, over requests of any kind between which anything may happen to the
host. It is found by the first operation that goes by it and meets a host without a release file or
gets a text from `awk`. Each one before that calls `awk` once, if that is not refused as a missing
binary of the tool, goes by the standard dialect and remembers nothing; that one goes by what it
finds, and so does each one after it, without calling `awk`. No other operation calls `awk`, but for
a command that the caller has it run, or changes what is remembered. -/
theorem first_dialect_remembered (config : Config) (vs : List Visit)
    (earlier later : List (HistoryStep State)) (step : HistoryStep State)
    (h : visits ⟨config, .pipeline⟩ vs none = earlier ++ step :: later) :
    let c : LocalChannel := ⟨config, .pipeline⟩
    let awk := commandLine "awk" (Platform.releaseIdProgram ++ " " ++ config.releasePath)
    let isRefused := config.looksInstalled "awk" && !step.before.host.machine.files.isPresent "awk"
    let hasRelease := step.before.host.machine.files.isPresent config.releasePath
    let Consults := step.Consults (c.channel step.before.host.ownPid) State.lines
    (step.request.operation.asksDialect = true →
      (earlier.findSome? c.found = none → c.detection step.request.context step.before = none →
        Consults (if isRefused then [] else [awk]) (.standard .linux) ∧
        step.after.platform = none) ∧
      (∀ p, earlier.findSome? c.found = none →
        c.detection step.request.context step.before = some p →
        Consults (if hasRelease then [awk] else []) p ∧ step.after.platform = some p) ∧
      (∀ p, earlier.findSome? c.found = some p → Consults [] p ∧ step.after.platform = some p)) ∧
    (step.request.operation.asksDialect = false →
      step.after.platform = step.before.platform ∧
      ∃ others, step.after.lines = step.before.lines ++ others ∧ ∀ l ∈ others, l.callsAwk = true →
        ∃ script args, step.request.operation = .run script args ∧
        l = commandLine script args) := by
  intro c awk isRefused hasRelease Consults
  have hmem : step ∈ c.visits vs none := h ▸ List.mem_append_right _ List.mem_cons_self
  have hstep := run_of_mem_visits hmem
  have hremembered : step.before.platform = earlier.findSome? c.found := by
    have hcarries : Carries State.platform none (earlier ++ step :: later) := h ▸ carries_visits
    refine (hcarries.memory_before fun e he => ?_).trans (Option.none_or)
    exact platform_after rfl (run_of_mem_visits (h ▸ List.mem_append_left _ he))
  have hafter := platform_after rfl hstep
  -- The three cases differ in what is remembered before the step and in what the step itself would
  -- find.
  refine ⟨fun hasks => ?_, fun hasks => ⟨?_, executed_of_not_asksDialect rfl hasks hstep⟩⟩
  · have hconsults := consults rfl hasks hstep
    rw [found, if_pos hasks] at hafter hconsults
    refine ⟨fun hnone hdetection => ?_, fun p hnone hdetection => ?_, fun p hsome => ?_⟩
    · rw [hremembered, hnone, hdetection] at hafter hconsults
      rw [probes_of_detection_none hdetection] at hconsults
      exact ⟨hconsults, hafter⟩
    · rw [hremembered, hnone, hdetection] at hafter hconsults
      rw [probes_of_detection_some hdetection] at hconsults
      exact ⟨hconsults, hafter⟩
    · rw [hremembered, hsome] at hafter hconsults
      exact ⟨hconsults, hafter⟩
  · rw [hafter, found, hasks]
    exact Option.or_none

def releasedHost (outcomes : List Outcome) : Host where
  now := .start
  executor := .scripted outcomes
  machine :=
    ⟨.ofList [(["etc".toList], .directory .nil), (["etc".toList, "os-release".toList], .file [])],
      [], []⟩
  ownPid := 7

/-- After a failure and a success of `awk`, a lookup goes by what the success told, although its
host has lost the release file. -/
theorem first_dialect_remembered_retry :
    let c : LocalChannel := ⟨.ofProgramPath "/opt/chaosblade", .pipeline⟩
    let bare : Host := { releasedHost [.success "10 "] with machine := ⟨.empty, [], []⟩ }
    let vs : List Visit :=
      [⟨releasedHost [⟨"awk: not found", .failed "exit status 127"⟩], ⟨.fresh 0, .isAlpine⟩⟩,
       ⟨releasedHost [.success "alpine\n"], ⟨.fresh 0, .psArgs⟩⟩,
       ⟨bare, ⟨.fresh 0, .pidsByCommandLine "java"⟩⟩]
    ∃ first second third : HistoryStep State, c.visits vs none = [first, second, third] ∧
      third.Consults (c.channel 7) State.lines [] ⟨.linux, true⟩ ∧
      third.after.platform = some ⟨.linux, true⟩ := by
  intro c bare vs
  refine ⟨_, _, _, rfl, ?_⟩
  have hlast := first_dialect_remembered c.config vs [_, _] [] _ rfl
  exact (hlast.1 rfl).2.2 _ (by decide +kernel)

/-- Where `awk` looks like a binary of the tool, the channel goes by the standard dialect without
calling it; and a caller may have it run without asking for the dialect. -/
theorem first_dialect_without_awk :
    let marked : LocalChannel :=
      ⟨{ Config.ofProgramPath "/opt/chaosblade" with installMarker := "awk" }, .pipeline⟩
    let plain : LocalChannel := ⟨.ofProgramPath "/opt/chaosblade", .pipeline⟩
    let host := releasedHost [.success "alpine\n"]
    (∃ step, marked.visits [⟨host, ⟨.fresh 0, .platform⟩⟩] none = [step] ∧
      step.request.operation.asksDialect = true ∧
      step.before.host.machine.files.isPresent marked.config.releasePath = true ∧
      step.answer = .platform (.standard .linux) ∧ step.executed State.lines = []) ∧
    ∃ step, plain.visits [⟨host, ⟨.fresh 0, .run "awk" "1"⟩⟩] none = [step] ∧
      step.request.operation.asksDialect = false ∧
      step.executed State.lines = [commandLine "awk" "1"] := by
  intro marked plain host
  have hstandard : ((marked.platform (.fresh 0)).run ⟨host, none⟩).1 = .standard .linux := by
    decide +kernel
  exact ⟨⟨_, rfl, rfl, by decide, congrArg Answer.platform hstandard, by decide +kernel⟩,
    _, rfl, rfl, by decide +kernel⟩

end LocalChannel

end HostReach
