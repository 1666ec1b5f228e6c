import HostReach.Proofs.Channel.Composable

/-!
What actions add to a record that only grows. A channel that adds for each of its three own
operations only what is allowed there adds in every operation only what is allowed for the commands
it may run.
-/
namespace HostReach

variable {σ ε α β : Type} {log : σ → List ε} {P Q : ε → Prop}

theorem run_bind (x : StateM σ α) (f : α → StateM σ β) (s : σ) :
    (x >>= f).run s = (f (x.run s).1).run (x.run s).2 := rfl

theorem run_get (s : σ) : (get : StateM σ σ).run s = (s, s) := rfl

/-- The action keeps the record and adds to it only what satisfies `P`. -/
def Adds (log : σ → List ε) (P : ε → Prop) (x : StateM σ α) : Prop :=
  ∀ s, ∃ added, log (x.run s).2 = log s ++ added ∧ ∀ e ∈ added, P e

namespace Adds

theorem of_log_eq {x : StateM σ α} (h : ∀ s, log (x.run s).2 = log s) : Adds log P x := by
  intro s
  exact ⟨[], by simp [h s], by simp⟩

theorem pure (a : α) : Adds log P (Pure.pure a : StateM σ α) := of_log_eq fun _ => rfl

theorem get : Adds log P (MonadState.get : StateM σ σ) := of_log_eq fun _ => rfl

theorem bind {x : StateM σ α} {f : α → StateM σ β} (hx : Adds log P x)
    (hf : ∀ a, Adds log P (f a)) : Adds log P (x >>= f) := by
  intro s
  obtain ⟨added, hlog, hadded⟩ := hx s
  obtain ⟨more, hmore, hP⟩ := hf (x.run s).1 (x.run s).2
  refine ⟨added ++ more, ?_, ?_⟩
  · rw [← List.append_assoc, ← hlog, ← hmore]
    rfl
  · intro e he
    rcases List.mem_append.mp he with h | h
    · exact hadded e h
    · exact hP e h

theorem mono {x : StateM σ α} (hx : Adds log P x) (h : ∀ e, P e → Q e) : Adds log Q x := by
  intro s
  obtain ⟨added, hlog, hadded⟩ := hx s
  exact ⟨added, hlog, fun e he => h e (hadded e he)⟩

theorem isComposable : IsComposable (m := StateM σ) fun _ x => Adds log P x where
  pure := pure
  bind := bind

end Adds

/-- Every run adds only what `P` allows for its context, script and arguments; the check of a
command and the question for the dialect add what is allowed for the commands behind them. -/
structure Channel.Logs (c : Channel (StateM σ)) (log : σ → List ε) (releasePath : String)
    (P : Context → String → String → ε → Prop) : Prop where
  run : ∀ ctx script args, Adds log (P ctx script args) (c.run ctx script args)
  isAvailable : ∀ ctx name, Adds log (P ctx "command" ("-v " ++ name)) (c.isAvailable ctx name)
  platform : ∀ ctx,
    Adds log (P ctx "awk" (Platform.releaseIdProgram ++ " " ++ releasePath)) (c.platform ctx)

namespace Channel.Logs

variable {c : Channel (StateM σ)} {releasePath : String} {P : Context → String → String → ε → Prop}

def Among (P : Context → String → String → ε → Prop) (ctx : Context)
    (commands : String → String → Prop) (e : ε) : Prop :=
  ∃ script args, commands script args ∧ P ctx script args e

theorem run_among (h : c.Logs log releasePath P) {commands : String → String → Prop} {ctx : Context}
    {script args : String} (hc : commands script args) :
    Adds log (Among P ctx commands) (c.run ctx script args) :=
  (h.run ctx script args).mono fun _ he => ⟨script, args, hc, he⟩

theorem isAvailable_among (h : c.Logs log releasePath P) {commands : String → String → Prop}
    {ctx : Context} {name : String} (hc : commands "command" ("-v " ++ name)) :
    Adds log (Among P ctx commands) (c.isAvailable ctx name) :=
  (h.isAvailable ctx name).mono fun _ he => ⟨_, _, hc, he⟩

theorem platform_among (h : c.Logs log releasePath P) {commands : String → String → Prop}
    {ctx : Context} (hc : commands "awk" (Platform.releaseIdProgram ++ " " ++ releasePath)) :
    Adds log (Among P ctx commands) (c.platform ctx) :=
  (h.platform ctx).mono fun _ he => ⟨_, _, hc, he⟩

theorem answer (h : c.Logs log releasePath P) (q : Request) :
    Adds log (Among P q.context (q.operation.MayRun c.selfMarkers releasePath q.context))
      (c.answer q) :=
  Adds.isComposable.answer releasePath (fun _ _ => h.run_among)
    (fun _ => h.isAvailable_among) h.platform_among

end Channel.Logs

end HostReach
