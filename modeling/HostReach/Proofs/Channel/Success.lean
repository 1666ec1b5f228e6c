import HostReach.Channel.Scripted
import HostReach.Proofs.Channel.Availability
import HostReach.Proofs.Command.Classification

/-!
A success has the code for success and no error text, so that callers may look at the flag alone.
Only an envelope that was read from captured output is taken as it is. What is refused before
anything is executed, and what failed without an envelope, is a failure with an error text.
-/
namespace HostReach

namespace ResultCode

theorem render_ne_empty {code : ResultCode} {c : Char} {t : List Char}
    (htemplate : code.template.toList = c :: t) (hc : c ≠ '%') (flags : List String) :
    code.render flags ≠ "" := by
  have hhead : '%' ∉ [c] := by simpa using hc.symm
  have hfill : fill (c :: t) flags = c :: fill t flags := fill_append hhead t flags
  intro hempty
  rw [← String.toList_eq_nil_iff, render, String.toList_ofList, htemplate, hfill] at hempty
  cases hempty

end ResultCode

namespace Response

/-- A success has the code for it, and no error. -/
def IsSound (r : Response) : Prop := r.success = true → r.code = 200 ∧ r.error = ""

def IsFailure (r : Response) : Prop := r.success = false ∧ r.error ≠ ""

/-- The ways to make a response other than reading it. -/
inductive IsMade : Response → Prop where
  | succeed (result : Json.Value) : IsMade (succeed result)
  | succeedEmpty : IsMade succeedEmpty
  | ignore (result : Json.Value) : IsMade (ignore result)
  | failStatus (status : Int32) (error : String) (result : Option Json.Value) :
      IsMade (failStatus status error result)
  | fail (c : ResultCode) (error : String) : IsMade (fail c error)
  | ofCode (c : ResultCode) (success : Bool) : IsMade (ofCode c success)
  | failWith (c : ResultCode) (flags : List String) : IsMade (failWith c flags)
  | failWithResult (c : ResultCode) (result : Json.Value) (flags : List String) :
      IsMade (failWithResult c result flags)

theorem isSound_of_failed {r : Response} (h : r.success = false) : r.IsSound := by
  intro hsuccess
  rw [h] at hsuccess
  cases hsuccess

theorem IsMade.isSound {r : Response} (h : r.IsMade) : r.IsSound := by
  cases h with
  | succeed result => exact fun _ => ⟨rfl, rfl⟩
  | succeedEmpty => exact fun _ => ⟨rfl, rfl⟩
  | ignore result => exact isSound_of_failed rfl
  | failStatus status error result => exact isSound_of_failed rfl
  | fail c error => exact isSound_of_failed rfl
  | ofCode c success =>
    cases success with
    | false => exact isSound_of_failed rfl
    | true => exact fun _ => ⟨rfl, rfl⟩
  | failWith c flags => exact isSound_of_failed rfl
  | failWithResult c result flags => exact isSound_of_failed rfl

theorem isFailure_failWith {c : ResultCode} {first : Char} {rest : List Char}
    (htemplate : c.template.toList = first :: rest) (hfirst : first ≠ '%') (flags : List String) :
    (failWith c flags).IsFailure :=
  ⟨rfl, ResultCode.render_ne_empty htemplate hfirst flags⟩

/-- What a response has to do with the outcome of an execution that it stands for. -/
structure StandsFor (r : Response) (o : Outcome) : Prop where
  isSound : r.IsSound ∨ Envelope.decode o.output = .structured r
  isFailure : o.exit ≠ .success → (∀ e, Envelope.decode o.output ≠ .structured e) → r.IsFailure

end Response

open Response

theorem Outcome.isMade_or_decode (command : String) (o : Outcome) (isSelf : Bool) :
    (o.classify command isSelf).IsMade ∨ Envelope.decode o.output =
      .structured (o.classify command isSelf) := by
  unfold classify
  split
  · exact .inl (.ofCode _ _)
  · split
    · next r hdecode => exact .inr hdecode
    · split
      · exact .inl (.succeed _)
      · exact .inl (.failWith _ _)

theorem Outcome.standsFor_classify (command : String) (o : Outcome) (isSelf : Bool) :
    (o.classify command isSelf).StandsFor o where
  isSound := (o.isMade_or_decode command isSelf).imp_left IsMade.isSound
  isFailure := by
    intro hexit hraw
    by_cases hrule : o.MeetsRule
    · rw [classify_of_meetsRule command isSelf hrule]
      exact ⟨rfl, by decide⟩
    · cases hdecode : Envelope.decode o.output with
      | structured e => exact absurd hdecode (hraw e)
      | raw text reason =>
        obtain ⟨error, -, herror⟩ := exists_says_of_ne_success hexit
        rw [classify_of_failure command isSelf hrule hdecode herror]
        exact ⟨rfl, by simp⟩

namespace Channel

theorem isFailure_notFound (name : String) : (notFound name).IsFailure := ⟨rfl, by simp [notFound]⟩

variable {m : Type → Type} [Monad m] {σ ε : Type} {running : Running m σ ε} {c : Channel m}
    {ctx : Context}

theorem exists_notFound {names : List String} {s after : σ} {r : Response}
    (h : running.run (c.firstUnavailable? ctx names) s = (.ok (some r), after)) :
    ∃ name ∈ names, r = notFound name := by
  induction names generalizing s with
  | nil =>
    rw [firstUnavailable?, running.run_pure] at h
    cases h
  | cons name names ih =>
    obtain ⟨isAvailable, middle, -, hrest⟩ := Running.exists_of_run_bind h
    cases isAvailable with
    | true =>
      obtain ⟨other, hother, hr⟩ := ih hrest
      exact ⟨other, List.mem_cons_of_mem _ hother, hr⟩
    | false =>
      rw [if_neg Bool.false_ne_true, running.run_pure] at hrest
      cases hrest
      exact ⟨name, List.mem_cons_self, unavailable_eq name⟩

end Channel

theorem Host.isFailure_missingBinary (script : String) : (missingBinary script).IsFailure :=
  isFailure_failWith rfl (by decide) _

/-- A response that was not read is sound, whichever way it was made. A run that is refused, for a
missing binary or for want of a target, changes nothing and answers with a failure; any other run
executes one command line and answers with a response that stands for the outcome. And the answer of
the check of several commands, on whatever channel, is a failure. -/
theorem success_is_ok :
    (∀ r : Response, r.IsMade → r.IsSound) ∧
    (∀ (c : LocalChannel) (ctx : Context) (script args : String) (s : LocalChannel.State),
      let done := (c.run ctx script args).run s
      let line := LocalChannel.commandLine script args
      let limit := ctx.limit s.host.now c.config.ceiling
      (c.refuses s.host script = true → done.2 = s ∧ done.1.IsFailure) ∧
      (c.refuses s.host script = false →
        done.2.host = s.host.withExecution (s.host.next line limit) ∧
          done.1.StandsFor (s.host.outcomeOf line limit))) ∧
    (∀ (c : NamespacedChannel) (ctx : Context) (script args : String) (s : NamespacedChannel.State),
      let done := (c.run ctx script args).run s
      let limit := ctx.limit s.host.now c.config.ceiling
      (ctx.namespaceTarget = none → done.2 = s ∧ done.1.IsFailure) ∧
      ∀ t, ctx.namespaceTarget = some t →
        let line := c.commandLine t script args
        (c.refuses s.host script = true → done.2 = s ∧ done.1.IsFailure) ∧
        (c.refuses s.host script = false →
          done.2.host = s.host.withExecution (s.host.next line limit) ∧
            done.1.StandsFor (s.host.outcomeOf line limit))) ∧
    ∀ {m : Type → Type} [Monad m] {σ ε : Type} (running : Running m σ ε) (c : Channel m)
      (ctx : Context)
      (names : List String) (s after : σ) (r : Response),
      running.run (c.firstUnavailable? ctx names) s = (.ok (some r), after) → r.IsFailure := by
  refine ⟨fun r => IsMade.isSound, fun c ctx script args s => ⟨fun h => ?_, fun h => ?_⟩,
    fun c ctx script args s => ⟨fun h => ?_, fun t ht => ⟨fun h => ?_, fun h => ?_⟩⟩, ?_⟩
  · rw [LocalChannel.run_of_refuses ctx args h]
    exact ⟨rfl, Host.isFailure_missingBinary script⟩
  · rw [LocalChannel.run_of_not_refuses ctx args h]
    exact ⟨rfl, Outcome.standsFor_classify _ _ _⟩
  · rw [NamespacedChannel.run_of_no_target args h]
    exact ⟨rfl, isFailure_failWith rfl (by decide) _⟩
  · rw [NamespacedChannel.run_of_refuses args ht h]
    exact ⟨rfl, Host.isFailure_missingBinary script⟩
  · rw [NamespacedChannel.run_of_not_refuses args ht h]
    exact ⟨rfl, Outcome.standsFor_classify _ _ _⟩
  · intro m _ σ ε running c ctx names s after r h
    obtain ⟨name, -, rfl⟩ := Channel.exists_notFound h
    exact Channel.isFailure_notFound name

/-- A code for a failure made into a success, a binary that is missing, an execution that fails, a
target that is missing, and a command that is not available. -/
theorem success_is_ok_each_way :
    let config := Config.ofProgramPath "/opt/chaosblade"
    let outer : LocalChannel := ⟨config, .pipeline⟩
    let inner : NamespacedChannel := ⟨config⟩
    let ctx := Context.fresh 0
    let inside := ctx.withNamespace ⟨42, false, true, false⟩
    let host : Host :=
      ⟨.start, [], .scripted [⟨"no", .failed "exit status 1"⟩], ⟨.empty, [], []⟩, [], 7⟩
    let scripted : ScriptedChannel := { missing := ["rm"] }
    (ofCode .commandFailed true).IsSound ∧
    ((outer.run ctx "/opt/chaosblade/blade" "").run ⟨host, none⟩).1.IsFailure ∧
    ((outer.run ctx "ls" "").run ⟨host, none⟩).1.IsFailure ∧
    ((inner.run ctx "ls" "").run ⟨host, []⟩).1.IsFailure ∧
    ((inner.run inside "/opt/chaosblade/blade" "").run ⟨host, []⟩).1.IsFailure ∧
    ((inner.run inside "ls" "").run ⟨host, []⟩).1.IsFailure ∧
    ∃ r, (((scripted.channel 7).firstUnavailable? ctx ["mv", "rm"]).run.run {}).1 = .ok (some r) ∧
    r.IsFailure := by
  intro config outer inner ctx inside host scripted
  obtain ⟨hmade, houter, hinner, hcheck⟩ := success_is_ok
  have hraw : ∀ e, Envelope.decode "no" ≠ .structured e := by
    obtain ⟨text, reason, hdecode⟩ : ∃ text reason, Envelope.decode "no" = .raw text reason :=
      ⟨_, _, rfl⟩
    simp [hdecode]
  have hfails : (⟨"no", .failed "exit status 1"⟩ : Outcome).exit ≠ .success := by decide
  have houterMissing : outer.refuses host "/opt/chaosblade/blade" = true := by decide +kernel
  have hinnerMissing : inner.refuses host "/opt/chaosblade/blade" = true := by decide +kernel
  obtain ⟨-, houterRefused⟩ :=
    (houter outer ctx "/opt/chaosblade/blade" "" ⟨host, none⟩).1 houterMissing
  obtain ⟨-, houterFailed⟩ := (houter outer ctx "ls" "" ⟨host, none⟩).2 (by decide +kernel)
  obtain ⟨-, hnoTarget⟩ := (hinner inner ctx "ls" "" ⟨host, []⟩).1 rfl
  obtain ⟨-, hinnerRefused⟩ :=
    ((hinner inner inside "/opt/chaosblade/blade" "" ⟨host, []⟩).2 _ rfl).1 hinnerMissing
  obtain ⟨-, hinnerFailed⟩ :=
    ((hinner inner inside "ls" "" ⟨host, []⟩).2 _ rfl).2 (by decide +kernel)
  exact ⟨hmade _ (.ofCode _ _), houterRefused, houterFailed.isFailure hfails hraw, hnoTarget,
    hinnerRefused, hinnerFailed.isFailure hfails hraw, _, rfl,
    hcheck (.ofExcept _ _) (scripted.channel 7) ctx ["mv", "rm"] {} _ _ rfl⟩

end HostReach
