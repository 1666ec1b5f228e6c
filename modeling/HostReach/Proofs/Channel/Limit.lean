import HostReach.Proofs.Channel.HostDialect
import HostReach.Proofs.Channel.TargetDialect
import HostReach.Proofs.Context.Derivation

/-!
How long executions may take. On either channel every execution that an operation causes, on its own
account or to check for a command or to ask for the dialect, has the time that is left until the
deadline of the context, and at most the ceiling of the configuration.
-/
namespace HostReach

/-- The limit of an execution is the ceiling, or the time from its start to the deadline where that
is less; once the deadline has passed there is no time left. -/
def Context.Allows (ctx : Context) (ceiling : Duration) (e : Execution) : Prop :=
  match ctx.deadline with
  | none => e.limit = ceiling
  | some d =>
    (e.limit.nanos : Int) =
      min (ceiling.nanos : Int) (max 0 ((d.nanos : Int) - e.startedAt.nanos)) ∧
      (d ≤ e.startedAt → e.limit = .zero)

theorem Context.allows_next (ctx : Context) (ceiling : Duration) (h : Host) (line : CommandLine) :
    ctx.Allows ceiling (h.next line (ctx.limit h.now ceiling)) := by
  unfold Allows limit
  cases ctx.deadline with
  | none => rfl
  | some d =>
    have hlimit : (min ceiling (d.since h.now)).nanos =
        min ceiling.nanos (d.nanos - h.now.nanos).toNat :=
      Duration.nanos_min _ _
    refine ⟨?_, fun hpassed => Duration.eq_zero ?_⟩
    · simp only [Host.next, hlimit]
      omega
    · have hnone : (d.nanos - h.now.nanos).toNat = 0 :=
        Int.toNat_eq_zero.mpr (Int.sub_nonpos_of_le hpassed)
      simp only [Host.next, hlimit, hnone, Nat.min_zero]

namespace Host

/-- Time goes on, and all that is executed meanwhile satisfies `P`. One execution is over before the
next one starts, so the time that it took is not there for those that come later. -/
structure Elapses (P : Execution → Prop) (before after : Host) : Prop where
  now_le : before.now ≤ after.now
  executed : ∃ added, after.executions = before.executions ++ added ∧
    (∀ e ∈ added, P e ∧ before.now ≤ e.startedAt ∧ e.startedAt ≤ e.endedAt ∧
      e.endedAt ≤ after.now) ∧
    added.Pairwise fun e f => e.endedAt ≤ f.startedAt

namespace Elapses

variable {P : Execution → Prop} {before middle after : Host}

theorem refl (h : Host) : h.Elapses P h where
  now_le := Int.le_refl _
  executed := ⟨[], by simp, by simp, .nil⟩

theorem trans (first : before.Elapses P middle) (second : middle.Elapses P after) :
    before.Elapses P after where
  now_le := Int.le_trans first.now_le second.now_le
  executed := by
    obtain ⟨early, hearly, hfirst, horder⟩ := first.executed
    obtain ⟨late, hlate, hsecond, horder'⟩ := second.executed
    refine ⟨early ++ late, by rw [hlate, hearly, List.append_assoc], fun e he => ?_, ?_⟩
    · rcases List.mem_append.mp he with he | he
      · obtain ⟨hP, hstart, htook, hend⟩ := hfirst e he
        exact ⟨hP, hstart, htook, Int.le_trans hend second.now_le⟩
      · obtain ⟨hP, hstart, htook, hend⟩ := hsecond e he
        exact ⟨hP, Int.le_trans first.now_le hstart, htook, hend⟩
    · refine List.pairwise_append.mpr ⟨horder, horder', fun e he f hf => ?_⟩
      exact Int.le_trans (hfirst e he).2.2.2 (hsecond f hf).2.1

theorem withExecution {h : Host} {line : CommandLine} {limit : Duration}
    (hP : P (h.next line limit)) :
    h.Elapses P (h.withExecution (h.next line limit)) where
  now_le := h.now_le_endedAt_next line limit
  executed := by
    refine ⟨[h.next line limit], rfl, fun e he => ?_, List.pairwise_singleton _ _⟩
    rw [List.mem_singleton.mp he]
    exact ⟨hP, Int.le_refl _, h.now_le_endedAt_next line limit, Int.le_refl _⟩

end Elapses

end Host

def Executed {σ α : Type} (host : σ → Host) (P : Execution → Prop) (x : StateM σ α) : Prop :=
  ∀ s, (host s).Elapses P (host (x.run s).2)

theorem Executed.isComposable {σ : Type} (host : σ → Host) (P : Execution → Prop) :
    IsComposable (m := StateM σ) fun _ x => Executed host P x where
  pure _ s := .refl (host s)
  bind hx hf s := (hx s).trans (hf _ _)

namespace LocalChannel

variable (c : LocalChannel) (ctx : Context)

theorem run_executed (script args : String) :
    Executed State.host (ctx.Allows c.config.ceiling) (c.run ctx script args) := by
  intro s
  cases h : c.refuses s.host script with
  | true =>
    rw [run_of_refuses ctx args h]
    exact .refl s.host
  | false =>
    rw [run_of_not_refuses ctx args h]
    exact .withExecution (ctx.allows_next _ _ _)

theorem platform_executed : Executed State.host (ctx.Allows c.config.ceiling) (c.platform ctx) := by
  intro s
  cases hknown : s.platform with
  | some p =>
    rw [platform_of_known hknown]
    exact .refl s.host
  | none =>
    cases hrelease : s.host.machine.files.isPresent c.config.releasePath with
    | false =>
      rw [platform_of_no_release hknown hrelease]
      exact .refl s.host
    | true =>
      have hrun := c.run_executed ctx "awk" c.releaseArgs s
      rcases hran : (c.run ctx "awk" c.releaseArgs).run s with ⟨r, after⟩
      rw [hran] at hrun
      rw [platform_of_release hknown hrelease hran]
      cases Channel.platformOfResponse? .linux r with
      | none => exact hrun
      | some p => exact hrun

theorem channel_executed (ownPid : UInt32) (q : Request) :
    Executed State.host (q.context.Allows c.config.ceiling) ((c.channel ownPid).answer q) :=
  composable_answer (Executed.isComposable State.host (q.context.Allows c.config.ceiling)) c ownPid
    (c.run_executed q.context) (c.platform_executed q.context)

theorem direct_run (keyword : String) (blank : Error)
    (select : Lookup.Query → List RunningProcess → List String) (s : State) :
    ((c.direct ctx keyword blank select).run s).2 = s := by
  simp only [direct, run_bind, run_get]
  split
  · rfl
  · rfl

/-- An operation is that of the channel with the pipelines, or finds processes in the process table
and leaves everything as it is. -/
theorem answer_cases (q : Request) (s : State) :
    (c.answer q).run s = ((c.channel s.host.ownPid).answer q).run s ∨
    ((c.answer q).run s).2 = s := by
  cases hway : c.way with
  | pipeline => exact .inl (answer_of_pipeline hway q s)
  | direct =>
    obtain ⟨ctx, operation⟩ := q
    cases operation with
    | pidsByCommandLine keyword =>
      refine .inr ?_
      simp only [answer, pidsByCommandLine, hway, run_bind, StateT.run_pure, direct_run]
      rfl
    | pidsByName name =>
      refine .inr ?_
      simp only [answer, pidsByName, hway, run_bind, StateT.run_pure, direct_run]
      rfl
    | _ => exact .inl rfl

theorem answer_executed (q : Request) :
    Executed State.host (q.context.Allows c.config.ceiling) (c.answer q) := by
  intro s
  rcases c.answer_cases q s with h | h
  · rw [h]
    exact c.channel_executed s.host.ownPid q s
  · rw [h]
    exact .refl s.host

end LocalChannel

namespace NamespacedChannel

variable (c : NamespacedChannel) (ctx : Context)

theorem run_executed (script args : String) :
    Executed State.host (ctx.Allows c.config.ceiling) (c.run ctx script args) := by
  intro s
  cases ht : ctx.namespaceTarget with
  | none =>
    rw [run_of_no_target args ht]
    exact .refl s.host
  | some t =>
    cases h : c.refuses s.host script with
    | true =>
      rw [run_of_refuses args ht h]
      exact .refl s.host
    | false =>
      rw [run_of_not_refuses args ht h]
      exact .withExecution (ctx.allows_next _ _ _)

theorem platform_executed : Executed State.host (ctx.Allows c.config.ceiling) (c.platform ctx) := by
  intro s
  cases ht : ctx.namespaceTarget with
  | none =>
    rw [platform_of_no_target ht]
    exact .refl s.host
  | some t =>
    cases hknown : s.platforms.lookup t.pid with
    | some p =>
      rw [platform_of_known ht hknown]
      exact .refl s.host
    | none =>
      have hrun := c.run_executed ctx "awk" c.releaseArgs s
      rcases hran : (c.run ctx "awk" c.releaseArgs).run s with ⟨r, after⟩
      rw [hran] at hrun
      rw [platform_of_awk ht hknown hran]
      cases Channel.platformOfResponse? .linux r with
      | none => exact hrun
      | some p => exact hrun

theorem answer_executed (ownPid : UInt32) (q : Request) :
    Executed State.host (q.context.Allows c.config.ceiling) ((c.channel ownPid).answer q) :=
  composable_answer (Executed.isComposable State.host (q.context.Allows c.config.ceiling)) c ownPid
    (c.run_executed q.context) (c.platform_executed q.context)

end NamespacedChannel

/-- Steps that the clock allows derive from a fresh context one whose deadline is the earliest that
was set, and none if none was. Every execution that an operation with it causes, on the host or
inside namespaces, starts while the operation goes on, when those before it are over however long
they took, and may take the time that is left then, up to the ceiling of the configuration. -/
theorem executions_limited (requestId : Nat) (steps : List Context.TimedStep)
    (h : ∀ t ∈ steps, t.overflows = false) :
    ∃ ctx, (Context.fresh requestId).derive? steps = some ctx ∧
      ctx.deadline = (steps.filterMap Context.TimedStep.deadline?).min? ∧
      (∀ (c : LocalChannel) (operation : Operation) (s : LocalChannel.State),
        s.host.Elapses (ctx.Allows c.config.ceiling) ((c.answer ⟨ctx, operation⟩).run s).2.host) ∧
      (∀ (c : NamespacedChannel) (ownPid : UInt32) (operation : Operation)
        (s : NamespacedChannel.State),
        s.host.Elapses (ctx.Allows c.config.ceiling)
          (((c.channel ownPid).answer ⟨ctx, operation⟩).run s).2.host) := by
  obtain ⟨ctx, hctx, hdeadline⟩ := Context.exists_derive h (.fresh requestId)
  refine ⟨ctx, hctx, hdeadline, fun c operation s => ?_, fun c ownPid operation s => ?_⟩
  · exact c.answer_executed ⟨ctx, operation⟩ s
  · exact c.answer_executed ownPid ⟨ctx, operation⟩ s

/-- A timeout of a minute does not put off a deadline that comes first. Of the executions for two
ports the first may take ten nanoseconds and takes three; the second, which starts one moment later,
may take six but takes a hundred; for the others there is no time left. -/
theorem executions_limited_time_runs_out :
    let steps : List Context.TimedStep :=
      [⟨.start, .deadline ⟨10, by decide⟩⟩, ⟨.start, .timeout (.ofSeconds 60)⟩, ⟨.start, .destroy⟩]
    let c : LocalChannel := ⟨.ofProgramPath "/opt/chaosblade", .direct⟩
    let spans : List Duration := [⟨3, by decide⟩, ⟨100, by decide⟩]
    let host : Host := ⟨.start, spans, .scripted [.success "/usr/bin/ss"], ⟨.empty, [], []⟩, [], 7⟩
    ∃ ctx, (Context.fresh 0).derive? steps = some ctx ∧ ctx.deadline = some ⟨10, by decide⟩ ∧
      let after := ((c.answer ⟨ctx, .pidsOnPorts ["80", "443"]⟩).run ⟨host, none⟩).2.host
      host.Elapses (ctx.Allows c.config.ceiling) after ∧
      after.executions.map (fun e => (e.startedAt.nanos, e.limit.nanos, e.endedAt.nanos)) =
        [(0, 10, 4), (4, 6, 105), (105, 0, 106), (106, 0, 107)] := by
  intro steps c spans host
  obtain ⟨ctx, hctx, hdeadline, hhost, -⟩ := executions_limited 0 steps (by decide)
  refine ⟨ctx, hctx, hdeadline, hhost c (.pidsOnPorts ["80", "443"]) ⟨host, none⟩, ?_⟩
  cases hctx
  decide +kernel

end HostReach
