import HostReach.Command.Outcome
import HostReach.Proofs.Context.Derivation

/-!
Timeouts. Where the clock reaches the end of a timeout, the timeout only narrows the time that an
execution may take. Where it does not, no context is derived, even if there is an earlier deadline
that would be kept.
-/
namespace HostReach.Context

variable {c next : Context} {now later d e : Instant} {span ceiling : Duration}

theorem nanos_limit (h : c.deadline = some d) (later : Instant) (ceiling : Duration) :
    (c.limit later ceiling).nanos = min ceiling.nanos (d.nanos - later.nanos).toNat := by
  simp only [limit, h]
  exact Duration.nanos_min ceiling (d.since later)

theorem limit_le_of_deadline_le (hnext : next.deadline = some d)
    (hc : ∀ e, c.deadline = some e → d ≤ e) (later : Instant) (ceiling : Duration) :
    next.limit later ceiling ≤ c.limit later ceiling := by
  show (next.limit later ceiling).nanos ≤ (c.limit later ceiling).nanos
  rw [nanos_limit hnext]
  cases hdeadline : c.deadline with
  | none =>
    simp only [limit, hdeadline]
    exact Nat.min_le_left _ _
  | some e =>
    have hle : d.nanos ≤ e.nanos := hc e hdeadline
    rw [nanos_limit hdeadline]
    omega

theorem limit_le_span (hnext : next.deadline = some d) (hends : d.nanos ≤ now.nanos + span.nanos)
    (hlater : now ≤ later) (ceiling : Duration) : next.limit later ceiling ≤ min ceiling span := by
  show (next.limit later ceiling).nanos ≤ (min ceiling span).nanos
  have hpassed : now.nanos ≤ later.nanos := hlater
  rw [nanos_limit hnext, Duration.nanos_min]
  omega

theorem exists_deadline_withDeadline (c : Context) (ends : Instant) :
    ∃ d, (c.withDeadline ends).deadline = some d ∧ d ≤ ends ∧ ∀ e, c.deadline = some e → d ≤ e := by
  cases h : c.deadline with
  | none => exact ⟨ends, by simp only [withDeadline, h], Int.le_refl _, by simp⟩
  | some e =>
    have hmin := Instant.nanos_min ends e
    refine ⟨min ends e, by simp only [withDeadline, h], ?_, ?_⟩
    · show (min ends e).nanos ≤ ends.nanos
      omega
    · rintro _ ⟨⟩
      show (min ends e).nanos ≤ e.nanos
      omega

/-- A timeout that the clock reaches derives a context whose deadline is not later than the one
there was. From then on an execution may take at most the ceiling and at most the timeout, and no
longer than it might before. All else stays as it is. A timeout beyond the clock derives nothing,
whatever the context is. -/
theorem withTimeout_narrows (c : Context) (now : Instant) (span : Duration) :
    (now.nanos + span.nanos < clockReach →
      ∃ next d, c.withTimeout? now span = some next ∧ next.deadline = some d ∧
        next = { c with deadline := some d } ∧ (∀ e, c.deadline = some e → d ≤ e) ∧
        ∀ later ceiling, now ≤ later →
          next.limit later ceiling ≤ min ceiling span ∧
          next.limit later ceiling ≤ c.limit later ceiling) ∧
    (clockReach ≤ now.nanos + span.nanos → c.withTimeout? now span = none) := by
  constructor
  · intro hreached
    have hfirst := now.inRange.1
    obtain ⟨ends, hends⟩ : ∃ ends : Instant, ends.nanos = now.nanos + span.nanos :=
      ⟨⟨now.nanos + span.nanos, by omega, hreached⟩, rfl⟩
    obtain ⟨d, hd, hle, hearlier⟩ := c.exists_deadline_withDeadline ends
    refine ⟨c.withDeadline ends, d, ?_, hd, ?_, hearlier, fun later ceiling hlater => ⟨?_, ?_⟩⟩
    · rw [withTimeout?, Instant.add?_eq_some.mpr hends, Option.map_some]
    · rw [← hd]
      rfl
    · have hspan : d.nanos ≤ ends.nanos := hle
      exact limit_le_span hd (hends ▸ hspan) hlater ceiling
    · exact limit_le_of_deadline_le hd hearlier later ceiling
  · intro hbeyond
    rw [withTimeout?, Instant.add?_eq_none.mpr hbeyond, Option.map_none]

/-- Where a minute is allowed, a deadline five seconds from the start stays and leaves three seconds
after two. The longest span that there is derives nothing, although that deadline comes first. -/
theorem withTimeout_narrows_earlier_deadline :
    let deadline : Instant := ⟨5000000000, by decide⟩
    let later : Instant := ⟨2000000000, by decide⟩
    let c : Context := (fresh 0).withDeadline deadline
    (∃ next d, c.withTimeout? .start (.ofSeconds 60) = some next ∧ next.deadline = some d ∧
      d ≤ deadline ∧
      next.limit later (.ofSeconds 60) ≤ .ofSeconds 3) ∧
    c.withTimeout? .start (.ofSeconds 18446744073709551615) = none := by
  intro deadline later c
  constructor
  · obtain ⟨next, d, hnext, hd, -, hearlier, hlimit⟩ :=
      (withTimeout_narrows c .start (.ofSeconds 60)).1 (by decide)
    have hleft : c.limit later (.ofSeconds 60) = .ofSeconds 3 := by decide
    obtain ⟨-, hless⟩ := hlimit later (.ofSeconds 60) (by decide)
    rw [hleft] at hless
    exact ⟨next, d, hnext, hd, hearlier deadline rfl, hless⟩
  · exact (withTimeout_narrows c .start _).2 (by decide)

end HostReach.Context
