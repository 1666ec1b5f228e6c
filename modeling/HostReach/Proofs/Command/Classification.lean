import HostReach.Command.Outcome
import HostReach.Proofs.Response.Template

/-!
Which response an outcome stands for: four cases, decided in order. A failure is a success only if
its own output says so.
-/
namespace HostReach.Outcome

/-- The execution failed because a rule is already in place. -/
def MeetsRule (o : Outcome) : Prop :=
  o.exit ≠ .success ∧ Text.contains o.output "RTNETLINK answers: File exists" = true

theorem isSuccess_eq_true_iff {e : Exit} : e.isSuccess = true ↔ e = .success := by
  cases e <;> simp [Exit.isSuccess]

/-- What is said of an execution that did not succeed: how the program ended, why it did not start,
or how long it was allowed to take. -/
inductive Says : Exit → String → Prop where
  | failed (text : String) : Says (.failed text) text
  | spawnFailed (text : String) : Says (.spawnFailed text) text
  | timedOut (limit : Duration) :
      Says (.timedOut limit)
        ("signal: killed, command timed out after " ++ limit.secondsText ++ "s")

theorem exists_says_of_ne_success {e : Exit} (h : e ≠ .success) :
    ∃ error, Says e error ∧ e.errorText? = some error := by
  cases e with
  | success => exact absurd rfl h
  | failed text => exact ⟨text, .failed text, rfl⟩
  | timedOut limit => exact ⟨_, .timedOut limit, rfl⟩
  | spawnFailed text => exact ⟨text, .spawnFailed text, rfl⟩

variable {o : Outcome} (command : String) (isSelf : Bool)

theorem meetsRule_iff :
    (!o.exit.isSuccess && Text.contains o.output ruleExists) = true ↔ o.MeetsRule := by
  rw [Bool.and_eq_true, Bool.not_eq_true', ← Bool.not_eq_true, isSuccess_eq_true_iff]
  rfl

theorem classify_of_meetsRule (h : o.MeetsRule) :
    o.classify command isSelf =
      ⟨49001, false, "network tc exec failed! RTNETLINK answers: File exists", none⟩ := by
  unfold classify
  rw [if_pos (meetsRule_iff.mpr h)]
  rfl

theorem classify_of_structured (h : ¬o.MeetsRule) {r : Response}
    (hdecode : Envelope.decode o.output = .structured r) : o.classify command isSelf = r := by
  unfold classify
  rw [if_neg (mt meetsRule_iff.mp h), hdecode]

theorem classify_of_success (hexit : o.exit = .success) {text : String} {reason : Envelope.Refusal}
    (hdecode : Envelope.decode o.output = .raw text reason) :
    o.classify command isSelf = ⟨200, true, "", some (.text o.output)⟩ := by
  have h : ¬o.MeetsRule := fun h => h.1 hexit
  unfold classify
  rw [if_neg (mt meetsRule_iff.mp h), hdecode, hexit]
  rfl

theorem classify_of_failure (h : ¬o.MeetsRule) {text error : String} {reason : Envelope.Refusal}
    (hdecode : Envelope.decode o.output = .raw text reason)
    (herror : o.exit.errorText? = some error) :
    o.classify command isSelf =
      ⟨63063, false, "`" ++ command ++ "`: cmd exec failed, err: " ++ o.output ++
        (if isSelf then "" else " " ++ error), none⟩ := by
  unfold classify
  rw [if_neg (mt meetsRule_iff.mp h), hdecode, herror]
  simp only [Response.failWith, Response.fail, Response.failStatus, ResultCode.render_commandFailed]
  cases isSelf
  · simp [ResultCode.commandFailed, String.append_assoc]
  · simp [ResultCode.commandFailed]

/-- The four cases, and which of them are successes. -/
theorem classify_cases (command : String) (o : Outcome) (isSelf : Bool) :
    (o.MeetsRule → o.classify command isSelf =
      ⟨49001, false, "network tc exec failed! RTNETLINK answers: File exists", none⟩) ∧
    (¬o.MeetsRule → ∀ r, Envelope.decode o.output = .structured r → o.classify command isSelf = r) ∧
    (¬o.MeetsRule → (∀ r, Envelope.decode o.output ≠ .structured r) → o.exit = .success →
      o.classify command isSelf = ⟨200, true, "", some (.text o.output)⟩) ∧
    (¬o.MeetsRule → (∀ r, Envelope.decode o.output ≠ .structured r) → o.exit ≠ .success →
      ∃ error, Says o.exit error ∧ o.exit.errorText? = some error ∧
        o.classify command isSelf =
          ⟨63063, false, "`" ++ command ++ "`: cmd exec failed, err: " ++ o.output ++
            (if isSelf then "" else " " ++ error), none⟩) ∧
    ((o.classify command isSelf).success = true ↔
      ¬o.MeetsRule ∧ ((∃ r, Envelope.decode o.output = .structured r ∧ r.success = true) ∨
        ((∀ r, Envelope.decode o.output ≠ .structured r) ∧ o.exit = .success))) := by
  by_cases hrule : o.MeetsRule
  · have hclassify := classify_of_meetsRule command isSelf hrule
    simp [hrule, hclassify]
  cases hdecode : Envelope.decode o.output with
  | structured r =>
    have hclassify := classify_of_structured command isSelf hrule hdecode
    simp [hrule, hclassify]
  | raw text reason =>
    by_cases hexit : o.exit = .success
    · have hclassify := classify_of_success command isSelf hexit hdecode
      simp [hrule, hexit, hclassify]
    · obtain ⟨error, hsays, herror⟩ := exists_says_of_ne_success hexit
      have hclassify := classify_of_failure command isSelf hrule hdecode herror
      exact ⟨fun h => absurd h hrule, fun _ _ h => (nomatch h), fun _ _ h => absurd h hexit,
        fun _ _ _ => ⟨error, hsays, herror, hclassify⟩, by simp [hrule, hexit, hclassify]⟩

/-- Failures whose texts look like places of a template: of a program, for want of time, and at the
start. -/
theorem classify_cases_percent_signs :
    let limit : Duration := .ofParts 1 ⟨500000000, by decide⟩
    Outcome.classify "rm %s" ⟨"%v left", .failed "exit status 1"⟩ false =
      ⟨63063, false, "`rm %s`: cmd exec failed, err: %v left exit status 1", none⟩ ∧
    Outcome.classify "rm %s" ⟨"%v left", .timedOut limit⟩ false =
      ⟨63063, false,
        "`rm %s`: cmd exec failed, err: %v left signal: killed, command timed out after 1.5s",
        none⟩ ∧
    Outcome.classify "rm %s"
      ⟨"%v left", .spawnFailed "No such file or directory (os error 2)"⟩ false =
      ⟨63063, false,
        "`rm %s`: cmd exec failed, err: %v left No such file or directory (os error 2)", none⟩ := by
  intro limit
  obtain ⟨text, reason, hdecode⟩ : ∃ text reason, Envelope.decode "%v left" = .raw text reason :=
    ⟨_, _, rfl⟩
  have hraw : ∀ r, Envelope.decode "%v left" ≠ .structured r := by simp [hdecode]
  have hclassify (e : Exit) (hexit : e ≠ .success) : ∃ error, Says e error ∧
      Outcome.classify "rm %s" ⟨"%v left", e⟩ false =
        ⟨63063, false, "`rm %s`: cmd exec failed, err: %v left" ++ (" " ++ error), none⟩ := by
    have hrule : ¬MeetsRule ⟨"%v left", e⟩ := by
      rintro ⟨-, h⟩
      have hlacks : Text.contains "%v left" "RTNETLINK answers: File exists" = false := by decide
      rw [hlacks] at h
      cases h
    obtain ⟨error, hsays, -, h⟩ :=
      (classify_cases "rm %s" ⟨"%v left", e⟩ false).2.2.2.1 hrule hraw hexit
    exact ⟨error, hsays, h⟩
  refine ⟨?_, ?_, ?_⟩
  · obtain ⟨error, ⟨⟩, h⟩ := hclassify (.failed "exit status 1") (by simp)
    exact h
  · obtain ⟨error, ⟨⟩, h⟩ := hclassify (.timedOut limit) (by simp)
    have hseconds : limit.secondsText = "1.5" := by decide +kernel
    rw [h, hseconds]
    rfl
  · obtain ⟨error, ⟨⟩, h⟩ :=
      hclassify (.spawnFailed "No such file or directory (os error 2)") (by simp)
    exact h

end HostReach.Outcome
