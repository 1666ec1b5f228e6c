import HostReach.Channel.Local
import HostReach.Channel.Namespaced
import HostReach.Channel.Scripted
import HostReach.Proofs.Channel.InTurn

/-!
The lookup of several ports is the lookups of the single ports in turn, up to the first that fails.
-/
namespace HostReach

namespace Channel

def joined : Except (String × Error) (List (List String)) → Found
  | .ok found => .ok found.flatten
  | .error (port, e) => .error (.portLookup port e)

/-- Without ports a lookup is refused, and nothing happens. With ports it does what the lookups of
the single ones do in turn. -/
structure LooksUpInTurn {m : Type → Type} [Monad m] {σ ε : Type} (r : Running m σ ε)
    (c : Channel m) : Prop where
  nil : ∀ ctx s,
    r.run (c.pidsOnPorts ctx []) s =
      (.ok (.error (.invalidArgument "the local port parameter is empty")), s)
  cons : ∀ ctx port ports s,
    GoesInTurn r (c.pidsOnPort ctx) .ok .error joined (port :: ports)
      (c.pidsOnPorts ctx (port :: ports)) s

variable {m : Type → Type} [Monad m] {σ ε : Type}

theorem isBatch_pidsOnEach (r : Running m σ ε) (c : Channel m) (ctx : Context) :
    IsBatch r (c.pidsOnPort ctx) .ok .error (c.pidsOnEach ctx) joined where
  nil := r.run_pure _
  goesOn {port ports s pids middle found after} hport hports := by
    rw [pidsOnEach, r.run_bind_ok hport]
    rcases found with u | ⟨⟨other, e⟩ | more⟩
    · exact r.run_bind_error hports
    · exact (r.run_bind_ok hports).trans (r.run_pure _ _)
    · exact (r.run_bind_ok hports).trans (r.run_pure _ _)
  ends hport := by
    rw [pidsOnEach, r.run_bind_ok hport]
    exact r.run_pure _ _
  isCutOff hport := r.run_bind_error hport

theorem looksUpInTurn [LawfulMonad m] (r : Running m σ ε) (c : Channel m) : c.LooksUpInTurn r where
  nil ctx s := r.run_pure _ s
  cons ctx port ports s := by
    refine (isBatch_pidsOnEach r c ctx).goesInTurn (fun found => ?_) (port :: ports) s
    cases found with
    | error e => exact .inr ⟨e, rfl⟩
    | ok pids => exact .inl ⟨pids, rfl⟩

/-- On every channel the lookup of several ports makes the lookups of the single ports one after the
other. It finds their processes in the order of the ports, or fails with the first port whose lookup
fails, and leaves what the lookups up to that one leave: the record of what has been executed and
the outcomes that are still to come. -/
theorem pidsOnPorts_in_turn :
    (∀ (c : LocalChannel) (ownPid : UInt32),
      (c.channel ownPid).LooksUpInTurn (.ofState LocalChannel.State)) ∧
    (∀ (c : NamespacedChannel) (ownPid : UInt32),
      (c.channel ownPid).LooksUpInTurn (.ofState NamespacedChannel.State)) ∧
    (∀ (c : ScriptedChannel) (ownPid : UInt32),
      (c.channel ownPid).LooksUpInTurn
        (.ofExcept ScriptedChannel.State ScriptedChannel.Unexpected)) :=
  ⟨fun _ _ => looksUpInTurn _ _, fun _ _ => looksUpInTurn _ _, fun _ _ => looksUpInTurn _ _⟩

/-- The lookup of the second of three ports fails: four command lines are executed, and none for the
third one. -/
theorem pidsOnPorts_in_turn_second_port :
    let c : LocalChannel := ⟨.ofProgramPath "/opt/chaosblade", .pipeline⟩
    let host : Host :=
      ⟨.start, [],
        .scripted [.success "/usr/bin/ss", .success "State\nLISTEN users:((\"nginx\",pid=10,fd=6))",
        .success "/usr/bin/ss", ⟨"denied", .failed "exit status 1"⟩], ⟨.empty, [], []⟩, [], 7⟩
    let done := ((c.channel 7).pidsOnPorts (.fresh 0) ["80", "443", "22"]).run ⟨host, none⟩
    done.1 = .error (.portLookup "443"
      (.commandFailed "`ss -pln sport = :443`: cmd exec failed, err: denied exit status 1")) ∧
    done.2.host.executions.map (·.line.args) =
      [["-c", "command -v ss"], ["-c", "ss -pln sport = :80"],
        ["-c", "command -v ss"], ["-c", "ss -pln sport = :443"]] := by
  intro c host done
  let r := Running.ofState LocalChannel.State
  let look := (c.channel 7).pidsOnPort (.fresh 0)
  let first := (look "80").run ⟨host, none⟩
  let second := (look "443").run first.2
  let denied : Error :=
    .commandFailed "`ss -pln sport = :443`: cmd exec failed, err: denied exit status 1"
  have hfound : first.1 = .ok ["10"] := by decide +kernel
  have hdenied : second.1 = .error denied := by decide +kernel
  have hfirst : r.run (["80"].mapM look) ⟨host, none⟩ = (.ok ([["10"]].map .ok), first.2) :=
    Running.run_mapM_cons (congrArg (fun found => (Except.ok found, first.2)) hfound)
      (r.run_pure _ _)
  have hsecond : r.run (look "443") first.2 = (.ok (.error denied), second.2) :=
    congrArg (fun found => (Except.ok found, second.2)) hdenied
  have hports : ["80", "443", "22"] = ["80"] ++ "443" :: ["22"] := rfl
  have hdone :=
    ((pidsOnPorts_in_turn.1 c 7).cons (.fresh 0) "80" ["443", "22"] ⟨host, none⟩).run _ _
    (.fails hports hfirst hsecond)
  obtain ⟨hanswer, hafter⟩ := Prod.mk.inj hdone
  have hexecuted : second.2.host.executions.map (·.line.args) =
      [["-c", "command -v ss"], ["-c", "ss -pln sport = :80"],
        ["-c", "command -v ss"], ["-c", "ss -pln sport = :443"]] := by decide +kernel
  exact ⟨Except.ok.inj hanswer,
    (congrArg (fun s => s.host.executions.map (·.line.args)) hafter).trans hexecuted⟩

end Channel

end HostReach
