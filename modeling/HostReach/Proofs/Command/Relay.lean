import HostReach.Proofs.Command.Classification
import HostReach.Proofs.Json.Mention
import HostReach.Proofs.Response.Stability

/-!
A response that is printed by a nested invocation and classified by the outer one comes back as it
was, through any number of invocations, but for one case: where an invocation fails and the response
says itself that a rule is in place, it becomes the response for that.
-/
namespace HostReach

open Json

namespace Response

/-- Whether the error, or a string or a key in the result, contains the phrase. -/
def mentions (w : String) (r : Response) : Bool := Text.contains r.error w ||
    r.result.any (·.mentions w)

theorem contains_eq_false (w : Phrase) {s : String} (h : ∀ c ∈ s.toList, ¬IsCapital c) :
    Text.contains s w.text = false := by
  have hempty := w.occursIn_append h []
  rw [List.append_nil] at hempty
  rw [Text.contains, Phrase.text, String.toList_ofList, hempty]
  rfl

theorem mentions_ofList (w : String) (kvs : List (String × Value)) :
    (Members.ofList kvs).mentions w = kvs.any fun p => Text.contains p.1 w || p.2.mentions w := by
  induction kvs with
  | nil => rfl
  | cons p kvs ih => rw [Members.ofList, Members.mentions, ih, List.any_cons]

theorem mentions_toJson (w : Phrase) (r : Response) :
    r.toJson.mentions w.text = r.mentions w.text := by
  have hkey (key : String) (h : ∀ c ∈ key.toList, ¬IsCapital c) : Text.contains key w.text =
      false :=
    contains_eq_false w h
  have herror : (if r.error.isEmpty then [] else [("error", Value.text r.error)]).any
      (fun p => Text.contains p.1 w.text || p.2.mentions w.text) =
        Text.contains r.error w.text := by
    by_cases hempty : r.error.isEmpty
    · rw [if_pos hempty, String.isEmpty_iff.mp hempty, hkey "" (forall_mem_of_all rfl)]
      rfl
    · simp [hempty, hkey "error" (forall_mem_of_all rfl), Value.mentions]
  unfold toJson members
  rw [Value.mentions, mentions_ofList, List.any_append, List.any_append, herror, mentions]
  cases r.result with
  | none =>
    simp [hkey "code" (forall_mem_of_all rfl), hkey "success" (forall_mem_of_all rfl),
      Value.mentions]
  | some v =>
    simp [hkey "code" (forall_mem_of_all rfl), hkey "success" (forall_mem_of_all rfl),
      hkey "result" (forall_mem_of_all rfl), Value.mentions]

theorem not_isCapital_of_isBlank {s : String} (h : Text.isBlank s) :
    ∀ c ∈ s.toList, ¬IsCapital c := by
  intro c hc hcapital
  have hblank : isBlank c = true := List.all_eq_true.mp h c hc
  have hlow : 65 ≤ c.toNat := hcapital.1
  have hhigh : c.toNat ≤ 90 := hcapital.2
  simp only [isBlank, Bool.or_eq_true, Bool.and_eq_true, decide_eq_true_eq, beq_iff_eq] at hblank
  omega

theorem contains_padded_print (w : Phrase) {r : Response} (hr : r.IsTidy) {before after : String}
    (hbefore : Text.isBlank before) (hafter : Text.isBlank after) :
    Text.contains (before ++ r.print ++ after) w.text = r.mentions w.text := by
  have htext : (before ++ r.print ++ after).toList =
      before.toList ++ (r.toJson.write .compact 0 ++ (after.toList ++ [])) := by
    simp [print, Value.compact]
  have hchars : w.text.toList = w.chars := String.toList_ofList
  rw [Text.contains, htext, hchars, w.occursIn_append (not_isCapital_of_isBlank hbefore),
    w.occursIn_write (s := .compact) trivial _ hr.toJson.1, mentions_toJson,
    w.occursIn_append (not_isCapital_of_isBlank hafter)]
  exact Bool.or_false _

end Response

/-- An invocation that prints a response and is executed by another one: its command, how it ends,
and the white space that comes with its output. -/
structure Hop where
  command : String
  exit : Exit
  isSelf : Bool
  before : String
  after : String
  isBlank_before : Text.isBlank before
  isBlank_after : Text.isBlank after

namespace Hop

def relay (h : Hop) (r : Response) : Response :=
  Outcome.classify h.command ⟨h.before ++ r.print ++ h.after, h.exit⟩ h.isSelf

def rulePhrase : Phrase where
  first := 'R'
  others := "TNETLINK answers: File exists".toList
  isCapital := by decide
  escaped_eq := forall_mem_of_all rfl

def rulePresent : Response := .ofCode .networkRuleExists false

variable {r : Response} (hop : Hop)

theorem meetsRule_iff (hr : r.IsTidy) :
    Outcome.MeetsRule ⟨hop.before ++ r.print ++ hop.after, hop.exit⟩ ↔
      hop.exit ≠ .success ∧ r.mentions Outcome.ruleExists = true := by
  have hphrase : rulePhrase.text = Outcome.ruleExists := rfl
  rw [← hphrase,
    ← Response.contains_padded_print rulePhrase hr hop.isBlank_before hop.isBlank_after]
  rfl

theorem relay_step (hr : r.IsTidy) :
    (hop.exit ≠ .success ∧ r.mentions Outcome.ruleExists = true → hop.relay r = rulePresent) ∧
      (¬(hop.exit ≠ .success ∧ r.mentions Outcome.ruleExists = true) → hop.relay r = r) := by
  have hdecode := Response.decode_padded_print hr hop.isBlank_before hop.isBlank_after
  rw [← hop.meetsRule_iff hr]
  exact ⟨Outcome.classify_of_meetsRule _ _,
    fun hrule => Outcome.classify_of_structured _ _ hrule hdecode⟩

theorem isTidy_rulePresent : rulePresent.IsTidy := by
  intro v hv
  cases hv

theorem relay_rulePresent : hop.relay rulePresent = rulePresent := by
  by_cases hrule : hop.exit ≠ .success ∧ rulePresent.mentions Outcome.ruleExists = true
  · exact (hop.relay_step isTidy_rulePresent).1 hrule
  · exact (hop.relay_step isTidy_rulePresent).2 hrule

theorem foldl_rulePresent (hops : List Hop) :
    hops.foldl (fun r hop => hop.relay r) rulePresent = rulePresent := by
  induction hops with
  | nil => rfl
  | cons hop hops ih => rw [List.foldl_cons, hop.relay_rulePresent, ih]

/-- A run of invocations, one after the other. -/
theorem foldl_relay (hr : r.IsTidy) (hops : List Hop) :
    ((∃ hop ∈ hops, hop.exit ≠ .success) ∧ r.mentions Outcome.ruleExists = true →
      hops.foldl (fun r hop => hop.relay r) r = rulePresent) ∧
    (¬((∃ hop ∈ hops, hop.exit ≠ .success) ∧ r.mentions Outcome.ruleExists = true) →
      hops.foldl (fun r hop => hop.relay r) r = r) := by
  induction hops with
  | nil => simp
  | cons hop hops ih =>
    rw [List.foldl_cons]
    by_cases hrule : hop.exit ≠ .success ∧ r.mentions Outcome.ruleExists = true
    · rw [(hop.relay_step hr).1 hrule, foldl_rulePresent]
      exact ⟨fun _ => rfl, fun hnot => absurd ⟨⟨hop, by simp, hrule.1⟩, hrule.2⟩ hnot⟩
    · rw [(hop.relay_step hr).2 hrule]
      have hlater : (∃ h ∈ hop :: hops, h.exit ≠ .success) ∧ r.mentions Outcome.ruleExists = true ↔
          (∃ h ∈ hops, h.exit ≠ .success) ∧ r.mentions Outcome.ruleExists = true := by
        simp only [List.mem_cons, exists_eq_or_imp]
        constructor
        · rintro ⟨hexit | hexit, hmentions⟩
          · exact absurd ⟨hexit, hmentions⟩ hrule
          · exact ⟨hexit, hmentions⟩
        · exact fun h => ⟨.inr h.1, h.2⟩
      rwa [hlater]

/-- A response passes through any invocations, whatever they run and however they end, as it is,
unless one of them fails and the response names the rule that is in place. Then the response for
that is what comes out, and that one stays whatever comes after it. -/
theorem relay_transparent {r : Response} (hr : r.IsTidy) :
    (∀ hop : Hop,
      (hop.exit ≠ .success ∧ r.mentions "RTNETLINK answers: File exists" = true →
        hop.relay r = .ofCode .networkRuleExists false) ∧
      (¬(hop.exit ≠ .success ∧ r.mentions "RTNETLINK answers: File exists" = true) →
        hop.relay r = r)) ∧
    (∀ hop : Hop, hop.relay (.ofCode .networkRuleExists false) = .ofCode .networkRuleExists false) ∧
    ∀ hops : List Hop,
      ((∃ hop ∈ hops, hop.exit ≠ .success) ∧ r.mentions "RTNETLINK answers: File exists" = true →
        hops.foldl (fun r hop => hop.relay r) r = .ofCode .networkRuleExists false) ∧
      (¬((∃ hop ∈ hops, hop.exit ≠ .success) ∧ r.mentions "RTNETLINK answers: File exists" = true) →
        hops.foldl (fun r hop => hop.relay r) r = r) :=
  ⟨fun hop => hop.relay_step hr, relay_rulePresent, foldl_relay hr⟩

/-- A failure whose result names the rule in a key passes a success, and not a failure behind it. -/
theorem relay_transparent_named_in_key :
    let r : Response :=
      ⟨63063, false, "no",
        some (.object (.cons "RTNETLINK answers: File exists\n" (.array .nil) .nil))⟩
    let quiet : Hop := ⟨"sh -c x", .success, true, "\u2003", "\n", rfl, rfl⟩
    let failing : Hop := ⟨"tc", .failed "exit status 2", false, "", "\n", rfl, rfl⟩
    [quiet, quiet].foldl (fun r hop => hop.relay r) r = r ∧
      [quiet, failing, quiet].foldl (fun r hop => hop.relay r) r =
        .ofCode .networkRuleExists false := by
  intro r quiet failing
  have hr : r.IsTidy := by
    intro v hv
    cases hv
    exact ⟨by simp, by
      simp [Value.isSorted, Values.isSorted, Members.isSorted, Members.keys, Members.toList],
      rfl, by decide⟩
  constructor
  · exact ((relay_transparent hr).2.2 _).2 (by simp [quiet])
  · refine ((relay_transparent hr).2.2 _).1 ⟨⟨failing, by simp, by simp [failing]⟩, ?_⟩
    simp only [r, Response.mentions, Option.any_some, Value.mentions, Members.mentions]
    decide +kernel

end Hop

end HostReach
