import HostReach.Proofs.Channel.TargetDialect

/-!
Requests for different processes do not disturb each other. What the requests for one process see of
a history, the dialects that they go by among it, they see again in the history of these requests
alone, if their executions have the same outcomes.
-/
namespace HostReach

def Request.isFor (q : Request) (pid : UInt32) : Bool := q.context.targetPid? == some pid

def upcoming : Nat → List Outcome → List Outcome
  | 0, _ => []
  | n + 1, os => os.headD (.success "") :: upcoming n os.tail

theorem upcoming_add (n k : Nat) (os : List Outcome) :
    upcoming (n + k) os = upcoming n os ++ upcoming k (os.drop n) := by
  induction n generalizing os with
  | zero => simp [upcoming]
  | succ n ih => simp only [Nat.succ_add, upcoming, ih, List.drop_tail, List.cons_append]

/-- The answer to a request, with the dialect that it goes by if it goes by one. -/
def Channel.consult {m : Type → Type} [Monad m] (c : Channel m)
    (q : Request) : m (Option Platform × Answer) :=
  if q.operation.asksDialect then do
    let p ← c.platform q.context
    let a ← (c.knowing p).answer q
    return (some p, a)
  else do
    return (none, ← c.answer q)

theorem Channel.snd_consult {m : Type → Type} [Monad m] [LawfulMonad m] (c : Channel m)
    (q : Request) :
    Prod.snd <$> c.consult q = c.answer q := by
  unfold consult
  split
  · next hasks =>
    rw [answer_of_asksDialect hasks]
    simp
  · simp

theorem Channel.run_consult {σ : Type} (c : Channel (StateM σ)) (q : Request) (s : σ) :
    (c.answer q).run s = (((c.consult q).run s).1.2, ((c.consult q).run s).2) := by
  rw [← c.snd_consult q]
  rfl

namespace NamespacedChannel

/-- States that requests for one process cannot tell apart, but for the outcomes that they get. -/
structure Alike (pid : UInt32) (s s' : State) : Prop where
  machine : s.host.machine = s'.host.machine
  dialect : s.platforms.lookup pid = s'.platforms.lookup pid

/-- From one state to another some command lines are executed on the same machine, and these
outcomes are left of the script. -/
structure Moves (s after : State) (ran : List CommandLine) (rest : List Outcome) : Prop where
  lines : after.lines = s.lines ++ ran
  executor : after.host.executor = .scripted rest
  machine : after.host.machine = s.host.machine

/-- An action for a process. In every state that is alike and has the outcomes that it uses it does
the same. -/
def Replays (pid : UInt32) {α : Type} (x : Action α) : Prop :=
  ∀ s os, s.host.executor = .scripted os → ∃ ran,
    Moves s (x.run s).2 ran (os.drop ran.length) ∧
    ∀ s' more, Alike pid s s' → s'.host.executor = .scripted (upcoming ran.length os ++ more) →
      (x.run s').1 = (x.run s).1 ∧ Moves s' (x.run s').2 ran more ∧
      Alike pid (x.run s).2 (x.run s').2

theorem Moves.refl {s : State} {os : List Outcome} (h : s.host.executor = .scripted os) :
    Moves s s [] os :=
  ⟨(List.append_nil _).symm, h, rfl⟩

theorem Moves.trans {s middle after : State} {ran more : List CommandLine} {os rest : List Outcome}
    (h : Moves s middle ran os) (h' : Moves middle after more rest) :
    Moves s after (ran ++ more) rest where
  lines := by rw [h'.lines, h.lines, List.append_assoc]
  executor := h'.executor
  machine := h'.machine.trans h.machine

theorem replays_isComposable (pid : UInt32) : IsComposable (m := Action) fun _ x =>
  Replays pid x where
  pure a s os hs := ⟨[], .refl hs, fun s' more halike hs' => ⟨rfl, .refl hs', halike⟩⟩
  bind {α β x f} hx hf s os hs := by
    obtain ⟨ran, hmoves, hreplay⟩ := hx s os hs
    obtain ⟨more, hmoves', hreplay'⟩ := hf _ _ _ hmoves.executor
    refine ⟨ran ++ more, ?_, fun s' rest halike hs' => ?_⟩
    · rw [List.length_append, ← List.drop_drop]
      exact hmoves.trans hmoves'
    · -- What the first action leaves of the outcomes begins with those that the second one uses.
      rw [List.length_append, upcoming_add, List.append_assoc] at hs'
      obtain ⟨hresult, hmoved, halike⟩ := hreplay s' _ halike hs'
      obtain ⟨hresult', hmoved', halike'⟩ := hreplay' _ rest halike hmoved.executor
      rw [run_bind, run_bind, hresult]
      exact ⟨hresult', hmoved.trans hmoved', halike'⟩

theorem moves_execution {s : State} {os : List Outcome} (hs : s.host.executor = .scripted os)
    (e : Execution) :
    Moves s { s with host := s.host.withExecution e } [e.line] os.tail where
  lines := by simp [State.lines]
  executor := by simp [hs, Executor.rest]
  machine := rfl

variable {c : NamespacedChannel} {pid : UInt32}

theorem replays_run (c : NamespacedChannel) (ctx : Context) (script args : String) :
    Replays pid (c.run ctx script args) := by
  intro s os hs
  cases ht : ctx.namespaceTarget with
  | none =>
    refine ⟨[], ?_, fun s' more halike hs' => ?_⟩
    · rw [run_of_no_target args ht]
      exact .refl hs
    · rw [run_of_no_target args ht, run_of_no_target args ht]
      exact ⟨rfl, .refl hs', halike⟩
  | some t =>
    cases h : c.refuses s.host script with
    | true =>
      refine ⟨[], ?_, fun s' more halike hs' => ?_⟩
      · rw [run_of_refuses args ht h]
        exact .refl hs
      · have h' : c.refuses s'.host script = true := by rw [← h, refuses, refuses, halike.machine]
        rw [run_of_refuses args ht h, run_of_refuses args ht h']
        exact ⟨rfl, .refl hs', halike⟩
    | false =>
      refine ⟨[c.commandLine t script args], ?_, fun s' more halike hs' => ?_⟩
      · rw [run_of_not_refuses args ht h, List.length_singleton, List.drop_one]
        exact moves_execution hs _
      · have h' : c.refuses s'.host script = false := by rw [← h, refuses, refuses, halike.machine]
        rw [run_of_not_refuses args ht h, run_of_not_refuses args ht h']
        refine ⟨?_, moves_execution hs' _, halike.machine, halike.dialect⟩
        simp only [Host.outcomeOf_of_scripted hs, Host.outcomeOf_of_scripted hs']
        rfl

theorem replays_platform {ctx : Context} (h : ctx.targetPid? = some pid) :
    Replays pid (c.platform ctx) := by
  obtain ⟨t, ht, rfl⟩ := Option.map_eq_some_iff.mp h
  intro s os hs
  cases hknown : s.platforms.lookup t.pid with
  | some p =>
    refine ⟨[], ?_, fun s' more halike hs' => ?_⟩
    · rw [platform_of_known ht hknown]
      exact .refl hs
    · rw [platform_of_known ht hknown, platform_of_known ht (halike.dialect ▸ hknown)]
      exact ⟨rfl, .refl hs', halike⟩
  | none =>
    obtain ⟨ran, hmoves, hreplay⟩ := c.replays_run ctx "awk" c.releaseArgs s os hs
    rcases hran : (c.run ctx "awk" c.releaseArgs).run s with ⟨r, after⟩
    rw [hran] at hmoves hreplay
    refine ⟨ran, ?_, fun s' more halike hs' => ?_⟩
    · rw [platform_of_awk ht hknown hran]
      cases Channel.platformOfResponse? .linux r with
      | none => exact hmoves
      | some p => exact ⟨hmoves.lines, hmoves.executor, hmoves.machine⟩
    · obtain ⟨hresult, hmoved, hafter⟩ := hreplay s' more halike hs'
      rcases hran' : (c.run ctx "awk" c.releaseArgs).run s' with ⟨r', after'⟩
      rw [hran'] at hresult hmoved hafter
      cases hresult
      rw [platform_of_awk ht hknown hran, platform_of_awk ht (halike.dialect ▸ hknown) hran']
      cases Channel.platformOfResponse? .linux r with
      | none => exact ⟨rfl, hmoved, hafter⟩
      | some p =>
        exact ⟨rfl, ⟨hmoved.lines, hmoved.executor, hmoved.machine⟩, hafter.machine, by simp⟩

variable {ownPid : UInt32} {q : Request}

theorem replays_consult (c : NamespacedChannel) (ownPid : UInt32)
    (h : q.context.targetPid? = some pid) :
    Replays pid ((c.channel ownPid).consult q) := by
  have hsequence := replays_isComposable pid
  have hknowing (p : Platform) : Replays pid (((c.channel ownPid).knowing p).answer q) :=
    composable_answer hsequence c ownPid (c.replays_run q.context) (hsequence.pure p)
  unfold Channel.consult
  split
  · refine hsequence.bind (replays_platform h) fun p => ?_
    exact hsequence.bind (hknowing p) fun a => hsequence.pure _
  · next hasks =>
    rw [Channel.answer_of_not_asksDialect (Bool.eq_false_iff.mpr hasks) (.standard .linux)]
    exact hsequence.bind (hknowing _) fun a => hsequence.pure _

/-- Every request executes some command lines, each with the next outcome of the script. -/
theorem moves_answer (c : NamespacedChannel) (ownPid : UInt32) (q : Request) {s : State}
    {os : List Outcome} (hs : s.host.executor = .scripted os) :
    ∃ ran, Moves s (((c.channel ownPid).answer q).run s).2 ran (os.drop ran.length) := by
  cases htarget : q.context.targetPid? with
  | none =>
    have hkept : (((c.channel ownPid).answer q).run s).2 = s :=
      keeps_of_no_target c ownPid (Option.map_eq_none_iff.mp htarget) s
    refine ⟨[], ?_⟩
    rw [hkept]
    exact .refl hs
  | some pid =>
    obtain ⟨ran, hmoves, -⟩ := c.replays_consult ownPid htarget s os hs
    rw [← Channel.snd_consult]
    exact ⟨ran, hmoves⟩

theorem Alike.answer_other {s s' : State} {os : List Outcome} (halike : Alike pid s s')
    (hs : s.host.executor = .scripted os) (h : q.context.targetPid? ≠ some pid) :
    Alike pid (((c.channel ownPid).answer q).run s).2 s' where
  machine := by
    obtain ⟨ran, hmoves⟩ := c.moves_answer ownPid q hs
    exact hmoves.machine.trans halike.machine
  dialect := by
    rw [c.lookup_answer ownPid, if_neg fun hfor => h hfor.2, Option.or_none]
    exact halike.dialect

/-- What there is to see of a request: the dialect that it goes by, if it goes by one, its answer,
and the command lines that are executed for it. -/
structure Sight where
  request : Request
  dialect : Option Platform
  answer : Answer
  executed : List CommandLine

def sight (c : NamespacedChannel) (ownPid : UInt32) (step : HistoryStep State) : Sight where
  request := step.request
  dialect := (((c.channel ownPid).consult step.request).run step.before).1.1
  answer := step.answer
  executed := step.executed State.lines

def outcomes (step : HistoryStep State) : List Outcome :=
  match step.before.host.executor with
  | .machine => []
  | .scripted os => upcoming (step.executed State.lines).length os

theorem Moves.executed {s after : State} {ran : List CommandLine} {rest : List Outcome} {a : Answer}
    (h : Moves s after ran rest) : HistoryStep.executed State.lines ⟨q, s, a, after⟩ = ran := by
  rw [HistoryStep.executed, h.lines, List.drop_left]

theorem sights_of_history (c : NamespacedChannel) (ownPid pid : UInt32) (qs : List Request)
    {s s' : State} {os : List Outcome} (hs : s.host.executor = .scripted os)
    (halike : Alike pid s s')
    (hs' : s'.host.executor = .scripted
      (((history (c.channel ownPid).answer qs s).filter fun step => step.request.isFor pid).flatMap
        outcomes)) :
    (history (c.channel ownPid).answer (qs.filter fun q => q.isFor pid) s').map (c.sight ownPid) =
      ((history (c.channel ownPid).answer qs s).filter fun step => step.request.isFor pid).map
      (c.sight ownPid) := by
  -- Along the requests the states of both histories stay alike, and the script of the second one is
  -- what the
  -- steps for the process have yet to use of the first one.
  induction qs generalizing s s' os with
  | nil => rfl
  | cons q qs ih =>
    cases hfor : q.isFor pid with
    | false =>
      obtain ⟨ran, hmoves⟩ := c.moves_answer ownPid q hs
      simp only [history, List.filter_cons, hfor] at hs' ⊢
      exact ih hmoves.executor (halike.answer_other hs (by simpa [Request.isFor] using hfor)) hs'
    | true =>
      simp only [history, List.filter_cons, hfor, if_true, List.flatMap_cons, List.map_cons,
        Channel.run_consult] at hs' ⊢
      obtain ⟨ran, hmoves, hreplay⟩ := c.replays_consult ownPid (beq_iff_eq.mp hfor) s os hs
      have houtcomes (a : Answer) :
          outcomes ⟨q, s, a, (((c.channel ownPid).consult q).run s).2⟩ =
            upcoming ran.length os := by
        simp only [outcomes, hs, hmoves.executed]
      rw [houtcomes] at hs'
      obtain ⟨hresult, hmoved, halike⟩ := hreplay s' _ halike hs'
      rw [ih hmoves.executor halike hmoved.executor]
      simp only [sight, hresult, hmoves.executed, hmoved.executed]

variable {step : HistoryStep State}

theorem dialect_of_asksDialect (c : NamespacedChannel) (ownPid : UInt32)
    (hasks : step.request.operation.asksDialect = true) :
    (c.sight ownPid step).dialect = some ((c.platform step.request.context).run step.before).1 := by
  simp only [sight, Channel.consult, hasks, if_true]
  rfl

theorem dialect_of_not_asksDialect (c : NamespacedChannel) (ownPid : UInt32)
    (hasks : step.request.operation.asksDialect = false) :
    (c.sight ownPid step).dialect = none := by
  simp only [sight, Channel.consult, hasks]
  rfl

/-- The requests for one process in a history see what they see without the others, when their
executions have the same outcomes. A request that goes by the dialect of the process has `awk`
called once, if that is not refused as the tool itself, until a call is answered with a text, and
goes by the standard dialect; the one whose call is so answered goes by what the text tells, and so
does each one after it, without calling `awk`. Other requests remember nothing, and without a target
nothing happens at all. -/
theorem targets_independent (c : NamespacedChannel) (ownPid pid : UInt32) (host : Host)
    (os : List Outcome) (qs : List Request) :
    let answered := fun (qs : List Request) (os : List Outcome) =>
      history (c.channel ownPid).answer qs ⟨{ host with executor := .scripted os }, []⟩
    let own := (answered qs os).filter fun step => step.request.isFor pid
    (answered (qs.filter fun q => q.isFor pid) (own.flatMap outcomes)).map (c.sight ownPid) =
      own.map (c.sight ownPid) ∧
    ∀ (earlier later : List (HistoryStep State)) (step : HistoryStep State),
      answered qs os = earlier ++ step :: later →
      (∀ t, step.request.context.namespaceTarget = some t → t.pid = pid →
        step.request.operation.asksDialect = true →
        let awk := c.commandLine t "awk" (Platform.releaseIdProgram ++ " " ++ c.config.releasePath)
        let isRefused := c.config.isSelf "awk" && !step.before.host.machine.files.isPresent "awk"
        let Uses := fun probes p => (c.sight ownPid step).dialect = some p ∧
          step.Consults (c.channel ownPid) State.lines probes p
        (earlier.findSome? (c.found pid) = none →
          c.detection step.request.context step.before = none →
          Uses (if isRefused then [] else [awk]) (.standard .linux)) ∧
        (∀ p, earlier.findSome? (c.found pid) = none →
          c.detection step.request.context step.before = some p →
          Uses [awk] p) ∧
        (∀ p, earlier.findSome? (c.found pid) = some p → Uses [] p)) ∧
      (step.request.operation.asksDialect = false →
        (c.sight ownPid step).dialect = none ∧ step.after.platforms = step.before.platforms ∧
        ∀ keyword, step.request.operation = .pidsByCommandLine keyword → step.after = step.before) ∧
      (step.request.context.namespaceTarget = none → step.after = step.before) := by
  intro answered own
  refine ⟨c.sights_of_history ownPid pid qs rfl ⟨rfl, rfl⟩ rfl, fun earlier later step h => ?_⟩
  have hstep := run_of_history_eq h
  have hafter : step.after = (((c.channel ownPid).answer step.request).run step.before).2 := by
    rw [hstep]
  refine ⟨?_,
    fun hasks => ⟨c.dialect_of_not_asksDialect ownPid hasks, ?_, fun keyword hkeyword => ?_⟩,
    fun hnone => ?_⟩
  · rintro t ht rfl hasks awk isRefused Uses
    have hconsults := consults hasks ht hstep
    have hdialect := c.dialect_of_asksDialect ownPid hasks
    rw [platform_eq ht, lookup_before t.pid h] at hdialect
    rw [found_of_target hasks ht, lookup_before t.pid h] at hconsults
    refine ⟨fun hnone hdetection => ?_, fun p hnone hdetection => ?_, fun p hsome => ?_⟩
    · rw [hnone, hdetection] at hconsults hdialect
      exact ⟨hdialect, hconsults⟩
    · rw [hnone, hdetection] at hconsults hdialect
      rw [probes_of_detection_some ht hdetection] at hconsults
      exact ⟨hdialect, hconsults⟩
    · rw [hsome] at hconsults hdialect
      exact ⟨hdialect, hconsults⟩
  · rw [hafter, Channel.answer_of_not_asksDialect hasks (.standard .linux), keeps_platforms]
  · rw [hafter, Channel.answer_of_blank hkeyword hasks]
    rfl
  · rw [hafter]
    exact c.keeps_of_no_target ownPid hnone step.before

/-- A lookup in one process goes by what its first request found, whatever is asked in between. -/
theorem targets_independent_interleaved :
    let c : NamespacedChannel := ⟨.ofProgramPath "/opt/chaosblade"⟩
    let ctx := fun pid => (Context.fresh 0).withNamespace ⟨pid, false, true, false⟩
    let answered := fun (qs : List Request) (os : List Outcome) =>
      history (c.channel 7).answer qs ⟨bareHost os, []⟩
    let first : Request := ⟨ctx 42, .platform⟩
    let last : Request := ⟨ctx 42, .pidsByCommandLine "java"⟩
    let whole := answered [first, ⟨ctx 77, .psArgs⟩, ⟨.fresh 0, .isAlpine⟩, last]
      [.success "alpine\n", .success "centos\n", .success "10 "]
    (answered [first, last] [.success "alpine\n", .success "10 "]).map (c.sight 7) =
      (whole.filter fun step => step.request.isFor 42).map (c.sight 7) ∧
    ∃ earlier step, whole = earlier ++ [step] ∧ (c.sight 7 step).dialect = some ⟨.linux, true⟩ ∧
      step.Consults (c.channel 7) State.lines [] ⟨.linux, true⟩ := by
  intro c ctx answered first last whole
  have hindependent := targets_independent c 7 42 (bareHost [])
    [.success "alpine\n", .success "centos\n", .success "10 "]
    [first, ⟨ctx 77, .psArgs⟩, ⟨.fresh 0, .isAlpine⟩, last]
  have houtcomes : (whole.filter fun step => step.request.isFor 42).flatMap outcomes =
      [.success "alpine\n", .success "10 "] := by decide +kernel
  refine ⟨?_, [_, _, _], _, rfl, ?_⟩
  · rw [← houtcomes]
    exact hindependent.1
  · have hlast := (hindependent.2 [_, _, _] [] _ rfl).1 ⟨42, false, true, false⟩ rfl rfl rfl
    exact hlast.2.2 _ (by decide +kernel)

/-- A lookup of a blank keyword has nothing executed and goes by no dialect; and where `awk` is the
tool itself and not there, the first request goes by the standard dialect without any `awk`. -/
theorem targets_independent_without_awk :
    let plain : NamespacedChannel := ⟨.ofProgramPath "/opt/chaosblade"⟩
    let renamed : NamespacedChannel :=
      ⟨{ Config.ofProgramPath "/opt/chaosblade" with selfCommand := "awk" }⟩
    let host := bareHost [.success "alpine\n"]
    let ctx := (Context.fresh 0).withNamespace ⟨42, false, true, false⟩
    (∃ step : HistoryStep State,
      history (plain.channel 7).answer [⟨ctx, .pidsByCommandLine " "⟩] ⟨host, []⟩ = [step] ∧
      (plain.sight 7 step).dialect = none ∧ (plain.sight 7 step).executed = []) ∧
    ∃ step : HistoryStep State, history (renamed.channel 7).answer [⟨ctx, .platform⟩] ⟨host, []⟩ =
      [step] ∧
      (renamed.sight 7 step).dialect = some (.standard .linux) ∧
      (renamed.sight 7 step).executed = [] := by
  intro plain renamed host ctx
  exact ⟨⟨_, rfl, by decide +kernel, by decide +kernel⟩, _, rfl, by decide +kernel,
    by decide +kernel⟩

end NamespacedChannel

end HostReach
