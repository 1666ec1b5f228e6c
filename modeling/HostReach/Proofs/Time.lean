import HostReach.Time

/-!
Durations and moments by their nanoseconds.
-/
namespace HostReach

namespace Duration

theorem nanos_min (a b : Duration) : (min a b).nanos = min a.nanos b.nanos := by
  have hmin : min a b = if a.nanos ≤ b.nanos then a else b := rfl
  rw [hmin]
  split <;> omega

theorem eq_zero {d : Duration} (h : d.nanos = 0) : d = .zero := by
  obtain ⟨nanos, _⟩ := d
  cases h
  rfl

end Duration

namespace Instant

theorem nanos_min (t d : Instant) : (min t d).nanos = min t.nanos d.nanos := by
  have hmin : min t d = if t.nanos ≤ d.nanos then t else d := rfl
  rw [hmin]
  split <;> omega

theorem min_comm (t d : Instant) : min t d = min d t := by
  have hnanos : (min t d).nanos = (min d t).nanos := by rw [nanos_min, nanos_min, Int.min_comm]
  generalize min t d = a at hnanos
  generalize min d t = b at hnanos
  obtain ⟨a, _⟩ := a
  cases hnanos
  rfl

theorem min?_append (earlier later : List Instant) :
    (earlier ++ later).min? = (earlier.min?.toList ++ later).min? := by
  cases earlier with
  | nil => rfl
  | cons t ts =>
    simp only [List.cons_append, List.min?_cons', List.foldl_append, Option.toList_some,
      List.nil_append]

variable {t e : Instant} {d : Duration}

theorem add?_eq_some : t.add? d = some e ↔ e.nanos = t.nanos + d.nanos := by
  have hlast := e.inRange.2
  unfold add?
  split
  · rw [Option.some.injEq]
    constructor
    · rintro rfl
      rfl
    · intro h
      obtain ⟨nanos, _⟩ := e
      cases h
      rfl
  · constructor
    · intro h
      cases h
    · omega

theorem le_after (t : Instant) (d : Duration) : t ≤ t.after d := by
  show t.nanos ≤ (t.after d).nanos
  unfold after
  cases h : t.add? d with
  | some e =>
    have hnanos := add?_eq_some.mp h
    simp only [Option.getD_some]
    omega
  | none => exact Int.le_sub_one_of_lt t.inRange.2

theorem add?_eq_none : t.add? d = none ↔ (clockReach : Int) ≤ t.nanos + d.nanos := by
  unfold add?
  split
  · simp only [reduceCtorEq, false_iff]
    omega
  · simp only [true_iff]
    omega

end Instant

end HostReach
