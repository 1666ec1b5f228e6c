import HostReach.Proofs.Channel.Dialect
import HostReach.Proofs.Channel.Success
import HostReach.Proofs.Lookup.Column

/-!
A lookup by pipeline from the request to the answer. It executes its pipeline, whatever came of
asking for the dialect before, and reads its answer from the outcome: the ids of the column that a
success prints, or an error for a failure.
-/
namespace HostReach

open Lookup

/-- What a lookup finds is read from the outcome of its pipeline. -/
structure Found.IsReadFrom (found : Found) (o : Outcome) (ownPid : UInt32) : Prop where
  column : ∀ pids, o.exit = .success → IsColumn pids o.output.toList →
    found = .ok ((pids.filter fun pid => pid != ownPid).map pidText)
  blank : o.exit = .success → Text.isBlank o.output = true → found = .ok []
  failure : o.exit ≠ .success → (∀ r, Envelope.decode o.output ≠ .structured r) →
    ∃ error, found = .error (.commandFailed error)

namespace Channel

section Response

variable {m : Type → Type} (c : Channel m) (command : String) (o : Outcome) (isSelf : Bool)

theorem pidsOfResponse_column {pids : List UInt32} (hexit : o.exit = .success)
    (h : IsColumn pids o.output.toList) :
    c.pidsOfResponse (o.classify command isSelf) =
      .ok ((pids.filter fun pid => pid != c.ownPid).map pidText) := by
  obtain ⟨reason, hdecode⟩ := Response.exists_raw (decode_column h)
  rw [Outcome.classify_of_success command isSelf hexit hdecode]
  exact congrArg Except.ok (pidsOfColumn_of_words (words_column h) c.ownPid)

theorem isReadFrom_pidsOfResponse :
    (c.pidsOfResponse (o.classify command isSelf)).IsReadFrom o c.ownPid where
  column pids hexit h := c.pidsOfResponse_column command o isSelf hexit h
  blank hexit h := c.pidsOfResponse_column command o isSelf hexit (.blank (List.all_eq_true.mp h))
  failure hexit hraw := by
    have hfailure := (o.standsFor_classify command isSelf).isFailure hexit hraw
    refine ⟨(o.classify command isSelf).error, ?_⟩
    rw [pidsOfResponse, hfailure.1]
    rfl

end Response

variable {σ : Type} {c : Channel (StateM σ)} {ctx : Context} {keyword : String}

theorem run_pidsByCommandLine (h : Text.isBlank keyword = false) (s : σ) :
    (c.pidsByCommandLine ctx keyword).run s =
      let asked := (c.platform ctx).run s
      let args := psPipeline asked.1.psArgs (Text.trim keyword) ctx c.selfMarkers
      let ran := (c.run ctx "ps" args).run asked.2
      (c.pidsOfResponse ran.1, ran.2) := by
  have hkeyword : (Text.trim keyword).isEmpty = false := by rw [Text.isEmpty_trim, h]
  simp only [pidsByCommandLine, hkeyword]
  rfl

theorem run_pidsByName (h : Text.isBlank keyword = false) (s : σ) :
    (c.pidsByName ctx keyword).run s =
      let ran := (c.run ctx "pgrep" (pgrepPipeline (Text.trim keyword) ctx c.selfMarkers)).run s
      (c.pidsOfResponse ran.1, ran.2) := by
  have hkeyword : (Text.trim keyword).isEmpty = false := by rw [Text.isEmpty_trim, h]
  simp only [pidsByName, hkeyword]
  rfl

end Channel

/-- From a host on a lookup executes one command line, and what it finds is read from the
outcome. -/
def Host.LooksUp (before : Host) (ctx : Context) (ceiling : Duration) (line : CommandLine)
    (ownPid : UInt32) (found : Found) (after : Host) : Prop :=
  let limit := ctx.limit before.now ceiling
  after = before.withExecution (before.next line limit) ∧
  found.IsReadFrom (before.outcomeOf line limit) ownPid

theorem LocalChannel.looksUp {c : LocalChannel} {script : String}
    (h : c.config.looksInstalled script = false) (ctx : Context) (args : String)
    (ownPid : UInt32) (s : State) :
    let ran := (c.run ctx script args).run s
    s.host.LooksUp ctx c.config.ceiling (commandLine script args) ownPid
      ((c.channel ownPid).pidsOfResponse ran.1)
      ran.2.host := by
  have hrefuses : c.refuses s.host script = false := by rw [refuses, h, Bool.false_and]
  rw [run_of_not_refuses ctx args hrefuses]
  exact ⟨rfl, (c.channel ownPid).isReadFrom_pidsOfResponse _ _ _⟩

theorem NamespacedChannel.looksUp {c : NamespacedChannel} {script : String}
    (h : c.config.isSelf script = false) {ctx : Context} {t : NamespaceTarget}
    (ht : ctx.namespaceTarget = some t) (args : String) (ownPid : UInt32) (s : State) :
    let ran := (c.run ctx script args).run s
    s.host.LooksUp ctx c.config.ceiling (c.commandLine t script args) ownPid
      ((c.channel ownPid).pidsOfResponse ran.1) ran.2.host := by
  have hrefuses : c.refuses s.host script = false := by rw [refuses, h, Bool.false_and]
  rw [run_of_not_refuses args ht hrefuses]
  exact ⟨rfl, (c.channel ownPid).isReadFrom_pidsOfResponse _ _ _⟩

/-- On the host and in the namespaces of a target, a lookup of a keyword that is not blank executes
its pipeline, by command line after asking for the dialect and whatever came of that. The column
that a success prints gives the ids that stand in it but for the caller's own, and a failure without
an envelope is an error. -/
theorem pipeline_lookup_reads_outcome :
    (∀ (c : LocalChannel) (ctx : Context) (keyword : String) (s : LocalChannel.State),
      c.way = .pipeline → Text.isBlank keyword = false →
      (c.config.looksInstalled "ps" = false →
        let asked := (c.platform ctx).run s
        let args := psPipeline asked.1.psArgs (Text.trim keyword) ctx c.config.selfMarkers
        let done := (c.pidsByCommandLine ctx keyword).run s
        asked.2.host.LooksUp ctx c.config.ceiling
          (LocalChannel.commandLine "ps" args) s.host.ownPid done.1
          done.2.host) ∧
      (c.config.looksInstalled "pgrep" = false →
        let args := pgrepPipeline (Text.trim keyword) ctx c.config.selfMarkers
        let done := (c.pidsByName ctx keyword).run s
        s.host.LooksUp ctx c.config.ceiling
          (LocalChannel.commandLine "pgrep" args) s.host.ownPid done.1
          done.2.host)) ∧
    ∀ (c : NamespacedChannel) (ownPid : UInt32) (ctx : Context) (t : NamespaceTarget)
      (keyword : String)
      (s : NamespacedChannel.State),
      ctx.namespaceTarget = some t → Text.isBlank keyword = false →
      (c.config.isSelf "ps" = false →
        let asked := (c.platform ctx).run s
        let args := psPipeline asked.1.psArgs (Text.trim keyword) ctx c.config.selfMarkers
        let done := ((c.channel ownPid).pidsByCommandLine ctx keyword).run s
        asked.2.host.LooksUp ctx c.config.ceiling
          (c.commandLine t "ps" args) ownPid done.1 done.2.host) ∧
      (c.config.isSelf "pgrep" = false →
        let args := pgrepPipeline (Text.trim keyword) ctx c.config.selfMarkers
        let done := ((c.channel ownPid).pidsByName ctx keyword).run s
        s.host.LooksUp ctx c.config.ceiling
          (c.commandLine t "pgrep" args) ownPid done.1 done.2.host) := by
  constructor
  · intro c ctx keyword s hway hkeyword
    constructor
    · intro hps
      have hrun : (c.pidsByCommandLine ctx keyword).run s =
          ((c.channel s.host.ownPid).pidsByCommandLine ctx keyword).run s := by
        simp only [LocalChannel.pidsByCommandLine, hway]
        rfl
      rw [hrun, Channel.run_pidsByCommandLine hkeyword]
      exact LocalChannel.looksUp hps ctx _ s.host.ownPid _
    · intro hpgrep
      have hrun : (c.pidsByName ctx keyword).run s =
          ((c.channel s.host.ownPid).pidsByName ctx keyword).run s := by
        simp only [LocalChannel.pidsByName, hway]
        rfl
      rw [hrun, Channel.run_pidsByName hkeyword]
      exact LocalChannel.looksUp hpgrep ctx _ s.host.ownPid s
  · intro c ownPid ctx t keyword s ht hkeyword
    constructor
    · intro hps
      rw [Channel.run_pidsByCommandLine hkeyword]
      exact NamespacedChannel.looksUp hps ht _ ownPid _
    · intro hpgrep
      rw [Channel.run_pidsByName hkeyword]
      exact NamespacedChannel.looksUp hpgrep ht _ ownPid s

/-- Inside namespaces, after a probe that failed, and on the host, where the pipeline fails. -/
theorem pipeline_lookup_reads_outcome_failed_probe :
    let config := Config.ofProgramPath "/opt/chaosblade"
    let inner : NamespacedChannel := ⟨config⟩
    let outer : LocalChannel := ⟨config, .pipeline⟩
    let ctx := (Context.fresh 0).withNamespace ⟨42, false, true, false⟩
    let host (outcomes : List Outcome) : Host :=
      ⟨.start, [], .scripted outcomes, ⟨.empty, [], []⟩, [], 7⟩
    let probed := host [⟨"", .failed "exit status 2"⟩, .success "101 7\u2003102\n101"]
    let failing := host [⟨"101", .failed "exit status 1"⟩]
    (((inner.channel 7).pidsByCommandLine ctx " java ").run ⟨probed, []⟩).1 =
      .ok ["101", "102", "101"] ∧
      ∃ error, ((outer.pidsByName ctx " java ").run ⟨failing, none⟩).1 =
        .error (.commandFailed error) := by
  intro config inner outer ctx host probed failing
  have hkeyword : Text.isBlank " java " = false := by decide
  have htext : "101 7\u2003102\n101".toList =
      [] ++ ((pidText 101).toList ++ ([' '] ++ ((pidText 7).toList ++
      (['\u2003'] ++ ((pidText 102).toList ++ (['\n'] ++ ((pidText 101).toList ++ []))))))) := by
        decide +kernel
  have hcolumn : IsColumn [101, 7, 102, 101] "101 7\u2003102\n101".toList := by
    rw [htext]
    refine .pid 101 (by simp) ?_
      (.pid 7 ?_ ?_ (.pid 102 ?_ ?_ (.pid 101 ?_ (by simp) (.blank (by simp)))))
    all_goals simp [isBlank]
  have hraw : ∀ r, Envelope.decode "101" ≠ .structured r := by
    obtain ⟨text, reason, hdecode⟩ : ∃ text reason, Envelope.decode "101" = .raw text reason :=
      ⟨_, _, rfl⟩
    simp [hdecode]
  obtain ⟨houter, hinner⟩ := pipeline_lookup_reads_outcome
  have hps : config.isSelf "ps" = false := by decide +kernel
  have hpgrep : config.looksInstalled "pgrep" = false := by decide +kernel
  obtain ⟨-, hfound⟩ := (hinner inner 7 ctx _ " java " ⟨probed, []⟩ rfl hkeyword).1 hps
  obtain ⟨-, hfailed⟩ := (houter outer ctx " java " ⟨failing, none⟩ rfl hkeyword).2 hpgrep
  obtain ⟨o, hprinted, hfound⟩ : ∃ o, o = .success "101 7\u2003102\n101" ∧ Found.IsReadFrom _ o 7 :=
    ⟨_, by decide +kernel, hfound⟩
  rw [hprinted] at hfound
  constructor
  · exact hfound.column _ rfl hcolumn
  · exact hfailed.failure (by decide) hraw

end HostReach
