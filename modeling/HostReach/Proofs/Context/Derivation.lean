import HostReach.Context
import HostReach.Proofs.Time

/-!
Contexts that are derived by step after step. Whatever the steps are and in whatever order they are
taken, the deadline is the earliest of those that were set.
-/
namespace HostReach

namespace Context

structure TimedStep where
  now : Instant
  step : Step

namespace TimedStep

/-- The deadline that a step sets, if it sets one and the clock reaches it. -/
def deadline? (t : TimedStep) : Option Instant :=
  match t.step with
  | .deadline d => some d
  | .timeout span => t.now.add? span
  | _ => none

/-- Whether a step asks for a deadline beyond the clock. -/
def overflows (t : TimedStep) : Bool :=
  match t.step with
  | .timeout span => (t.now.add? span).isNone
  | _ => false

end TimedStep

/-- The context that steps derive, each from what the one before it has derived. -/
def derive? (c : Context) : List TimedStep → Option Context
  | [] => some c
  | t :: ts => (c.step? t.now t.step).bind fun next => next.derive? ts

theorem deadline_withDeadline (c : Context) (d : Instant) :
    (c.withDeadline d).deadline = (c.deadline.toList ++ [d]).min? := by
  cases hc : c.deadline with
  | none => simp [withDeadline, hc]
  | some earlier => simp [withDeadline, hc, List.min?_cons', Instant.min_comm]

theorem exists_step {c : Context} {t : TimedStep} (h : t.overflows = false) :
    ∃ next, c.step? t.now t.step = some next ∧
      next.deadline = (c.deadline.toList ++ t.deadline?.toList).min? := by
  have hkept : c.deadline = (c.deadline.toList ++ []).min? := by cases c.deadline <;> rfl
  obtain ⟨now, step⟩ := t
  cases step with
  | deadline d => exact ⟨_, rfl, c.deadline_withDeadline d⟩
  | timeout span =>
    cases hd : now.add? span with
    | none => simp [TimedStep.overflows, hd] at h
    | some d =>
      refine ⟨c.withDeadline d, by simp [step?, withTimeout?, hd], ?_⟩
      simpa [TimedStep.deadline?, hd] using c.deadline_withDeadline d
  | processFilter word => exact ⟨_, rfl, hkept⟩
  | processCommand word => exact ⟨_, rfl, hkept⟩
  | excludeList list => exact ⟨_, rfl, hkept⟩
  | excluded names => exact ⟨_, rfl, hkept⟩
  | destroy => exact ⟨_, rfl, hkept⟩
  | namespaceTarget target => exact ⟨_, rfl, hkept⟩

theorem exists_derive {steps : List TimedStep} (h : ∀ t ∈ steps, t.overflows = false)
    (c : Context) :
    ∃ derived, c.derive? steps = some derived ∧
      derived.deadline = (c.deadline.toList ++ steps.filterMap TimedStep.deadline?).min? := by
  induction steps generalizing c with
  | nil => exact ⟨c, rfl, by cases c.deadline <;> rfl⟩
  | cons t ts ih =>
    obtain ⟨next, hnext, hdeadline⟩ := exists_step (c := c) (h t List.mem_cons_self)
    obtain ⟨derived, hderived, hearliest⟩ := ih (fun u hu => h u (List.mem_cons_of_mem t hu)) next
    refine ⟨derived, by rw [derive?, hnext, Option.bind_some, hderived], ?_⟩
    rw [hearliest, hdeadline, ← Instant.min?_append, List.append_assoc]
    cases ht : t.deadline? <;> simp [ht]

end Context

end HostReach
