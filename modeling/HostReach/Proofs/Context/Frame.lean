import HostReach.Proofs.Context.Derivation

/-!
What steps leave as it is. Each step is for one field: the others are those of the context that it
starts from, and so are, after several steps, all fields that none of them is for. The request is
the same throughout.
-/
namespace HostReach.Context

inductive Field where
  | deadline
  | namespaceTarget
  | processFilter
  | excludes
  | processCommand
  | isDestroy
  deriving DecidableEq

def Step.field : Step → Field
  | .deadline _ | .timeout _ => .deadline
  | .namespaceTarget _ => .namespaceTarget
  | .processFilter _ => .processFilter
  | .excludeList _ | .excluded _ => .excludes
  | .processCommand _ => .processCommand
  | .destroy => .isDestroy

def Field.Agrees (c d : Context) : Field → Prop
  | .deadline => d.deadline = c.deadline
  | .namespaceTarget => d.namespaceTarget = c.namespaceTarget
  | .processFilter => d.rawProcessFilter = c.rawProcessFilter
  | .excludes => d.excludes = c.excludes
  | .processCommand => d.rawProcessCommand = c.rawProcessCommand
  | .isDestroy => d.isDestroy = c.isDestroy

theorem Field.Agrees.refl (c : Context) (f : Field) : f.Agrees c c := by cases f <;> rfl

theorem Field.Agrees.trans {c d e : Context} {f : Field} (h : f.Agrees c d) (h' : f.Agrees d e) :
    f.Agrees c e := by
  cases f <;> exact Eq.trans h' h

/-- One context is derived from the other without a change but to some fields. -/
structure Keeps (c d : Context) (changed : Field → Prop) : Prop where
  requestId : d.requestId = c.requestId
  agrees : ∀ f, ¬changed f → f.Agrees c d

theorem Keeps.trans {c d e : Context} {first second both : Field → Prop} (h : c.Keeps d first)
    (h' : d.Keeps e second) (hfirst : ∀ f, first f → both f) (hsecond : ∀ f, second f → both f) :
    c.Keeps e both where
  requestId := h'.requestId.trans h.requestId
  agrees f hf := (h.agrees f fun hchanged => hf (hfirst f hchanged)).trans
    (h'.agrees f fun hchanged => hf (hsecond f hchanged))

theorem keeps_step {c next : Context} {now : Instant} {step : Step}
    (h : c.step? now step = some next) :
    c.Keeps next (step.field = ·) := by
  cases step with
  | timeout span =>
    obtain ⟨d, -, rfl⟩ := Option.map_eq_some_iff.mp h
    refine ⟨rfl, fun f hf => ?_⟩
    cases f <;> simp_all [Field.Agrees, Step.field, withDeadline]
  | _ =>
    cases h
    refine ⟨rfl, fun f hf => ?_⟩
    cases f <;> simp_all [Field.Agrees, Step.field, withDeadline, withNamespace, withProcessFilter,
      withProcessCommand, withExcludeList, withExcludes, asDestroy]

theorem keeps_derive {c derived : Context} {steps : List TimedStep}
    (h : c.derive? steps = some derived) :
    c.Keeps derived fun f => ∃ t ∈ steps, t.step.field = f := by
  induction steps generalizing c with
  | nil =>
    cases h
    exact ⟨rfl, fun f _ => .refl _ f⟩
  | cons t ts ih =>
    obtain ⟨next, hnext, hderived⟩ := Option.bind_eq_some_iff.mp h
    refine (keeps_step hnext).trans (ih hderived) (fun f hf => ⟨t, List.mem_cons_self, hf⟩) ?_
    rintro f ⟨u, hu, hf⟩
    exact ⟨u, List.mem_cons_of_mem t hu, hf⟩

end HostReach.Context
