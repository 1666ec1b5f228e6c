import HostReach.Channel.Scripted
import HostReach.Proofs.Channel.Execution
import HostReach.Proofs.Channel.InTurn
import HostReach.Proofs.Json.Typed
import HostReach.Proofs.Response.Template

/-!
The check of several commands is the checks of the single ones in turn, up to the first that is not
available and that the answer names. When a command is available is said by the response to
`command -v`.
-/
namespace HostReach

theorem Response.resultText?_eq_some {r : Response} {text : String} :
    r.resultText? = some text ↔ r.result = some (.text text) := by
  simp [resultText?, Option.bind_eq_some_iff, Json.Value.text?_eq_some]

theorem Response.tells_iff {r : Response} {word : String} :
    (r.success && (r.resultText?.map fun text => Text.contains text word).getD false) = true ↔
      r.success = true ∧ ∃ text, r.result = some (.text text) ∧ Text.contains text word = true := by
  rw [Bool.and_eq_true]
  simp only [← resultText?_eq_some]
  cases r.resultText? <;> simp

namespace Channel

/-- The code that says that a command is not available: one of its own for each of these, and one
for all others. -/
def notFoundCode : String → Int32
  | "taskset" => 52000
  | "mount" => 52001
  | "umount" => 52002
  | "tc" => 52003
  | "iptables" => 52004
  | "sed" => 52005
  | "cat" => 52006
  | "ss" => 52007
  | "dd" => 52008
  | "rm" => 52009
  | "touch" => 52010
  | "mkdir" => 52011
  | "echo" => 52012
  | "kill" => 52013
  | "mv" => 52014
  | "head" => 52015
  | "grep" => 52016
  | "awk" => 52017
  | "tar" => 52018
  | "systemctl" => 52019
  | "nohup" => 52020
  | _ => 52099

theorem notFoundCode_eq (name : String) :
    notFoundCode name = ((ResultCode.utilityNotFound? name).map (·.code)).getD 52099 := by
  unfold notFoundCode
  split
  case h_22 =>
    have hother : name ∉ ResultCode.utilities := by simp_all [ResultCode.utilities]
    rw [ResultCode.utilityNotFound?, List.idxOf?_eq_none_iff.mpr hother]
    rfl
  all_goals rfl

def notFound (name : String) : Response :=
  ⟨notFoundCode name, false, "`" ++ name ++ "`: command not found", none⟩

theorem unavailable_eq (name : String) : unavailable name = notFound name := by
  unfold unavailable notFound
  rw [notFoundCode_eq]
  cases hcode : ResultCode.utilityNotFound? name with
  | none =>
    simp only [Response.failWith, Response.fail, Response.failStatus,
      ResultCode.render_commandNotFound]
    rfl
  | some code =>
    obtain ⟨i, -, rfl⟩ := Option.map_eq_some_iff.mp hcode
    simp [Response.failWith, Response.fail, Response.failStatus, ResultCode.render,
      ResultCode.fill_nil, String.append_assoc]

def refusal : Except (String × Unit) (List Unit) → Option Response
  | .ok _ => none
  | .error (name, _) => some (notFound name)

/-- The check of several commands does what the checks of the single ones do in turn. -/
def ChecksInTurn {m : Type → Type} [Monad m] {σ ε : Type} (r : Running m σ ε)
    (c : Channel m) : Prop :=
  ∀ ctx names s, GoesInTurn r (c.isAvailable ctx) (fun () => true) (fun () => false) refusal names
    (c.firstUnavailable? ctx names) s

variable {m : Type → Type} [Monad m] {σ ε : Type}

theorem isBatch_firstUnavailable (r : Running m σ ε) (c : Channel m) (ctx : Context) :
    IsBatch r (c.isAvailable ctx) (fun () => true) (fun () => false)
      (c.firstUnavailable? ctx) refusal where
  nil := r.run_pure _
  goesOn {name names s _ middle found after} hname hnames := by
    rw [firstUnavailable?, r.run_bind_ok hname]
    rcases found with u | ⟨⟨other, _⟩ | _⟩
    · exact hnames
    · exact hnames
    · exact hnames
  ends {name names s _ after} hname := by
    rw [firstUnavailable?, r.run_bind_ok hname, unavailable_eq]
    exact r.run_pure _ _
  isCutOff hname := r.run_bind_error hname

theorem inTurn_second [LawfulMonad m] {r : Running m σ ε} {check : String → m Bool}
    {first second : String} {rest : List String} {s middle after : σ}
    (hfirst : r.run (check first) s = (.ok true, middle))
    (hsecond : r.run (check second) middle = (.ok false, after)) :
    InTurn r check (fun () => true) (fun () => false) (first :: second :: rest) s
      (.ok (.error (second, ()))) after := by
  have hchecked : r.run ([first].mapM check) s = (.ok ([()].map fun () => true), middle) :=
    Running.run_mapM_cons hfirst (r.run_pure _ _)
  exact .fails (show first :: second :: rest = [first] ++ second :: rest from rfl) hchecked hsecond

theorem checksInTurn [LawfulMonad m] (r : Running m σ ε) (c : Channel m) : c.ChecksInTurn r := by
  intro ctx names s
  refine (isBatch_firstUnavailable r c ctx).goesInTurn (fun b => ?_) names s
  cases b with
  | false => exact .inr ⟨(), rfl⟩
  | true => exact .inl ⟨(), rfl⟩

end Channel

namespace LocalChannel

variable (c : LocalChannel) (ctx : Context) (name : String) (s : State)

theorem commandText_check : commandText "command" ("-v " ++ name) = "command -v " ++ name := by
  have hscript : Text.escapeSpaces "command" = "command" := by decide
  rw [commandText, hscript, ← String.append_assoc]
  rfl

theorem commandLine_check :
    commandLine "command" ("-v " ++ name) = ⟨"/bin/sh", ["-c", "command -v " ++ name]⟩ :=
  congrArg (fun text => CommandLine.mk "/bin/sh" ["-c", text]) (commandText_check name)

/-- The response that the outcome of `command -v`, executed for a command, stands for. -/
def checked (h : Host) : Response :=
  let line : CommandLine := ⟨"/bin/sh", ["-c", "command -v " ++ name]⟩
  let limit := ctx.limit h.now c.config.ceiling
  (h.outcomeOf line limit).classify ("command -v " ++ name) (c.config.isSelf "command")

theorem isAvailable_iff : ((c.isAvailable ctx name).run s).1 = true ↔
    c.refuses s.host "command" = false ∧ (c.checked ctx name s.host).success = true := by
  have hcheck : ((c.isAvailable ctx name).run s).1 =
      ((c.run ctx "command" ("-v " ++ name)).run s).1.success := rfl
  rw [hcheck]
  cases h : c.refuses s.host "command" with
  | true =>
    rw [run_of_refuses ctx _ h]
    simp [Host.missingBinary, Response.failWith, Response.fail, Response.failStatus]
  | false =>
    rw [run_of_not_refuses ctx _ h, commandLine_check, commandText_check]
    simp [checked]

end LocalChannel

namespace NamespacedChannel

variable (c : NamespacedChannel) (ctx : Context) (name : String) (s : State)

theorem commandLine_check (t : NamespaceTarget) : c.commandLine t "command" ("-v " ++ name) =
    ⟨c.config.helperPath, helperOptions t ++ ["--", "/bin/sh", "-c", "command -v " ++ name]⟩ := by
  have hargs : ("-v " ++ name).isEmpty = false := by simp
  simp only [commandLine, payload, hargs]
  rw [if_neg (by decide), ← String.append_assoc]
  rfl

def checked (t : NamespaceTarget) (h : Host) : Response :=
  let args := helperOptions t ++ ["--", "/bin/sh", "-c", "command -v " ++ name]
  let line : CommandLine := ⟨c.config.helperPath, args⟩
  let limit := ctx.limit h.now c.config.ceiling
  (h.outcomeOf line limit).classify line.display (c.config.isSelf "command")

theorem isAvailable_iff : ((c.isAvailable ctx name).run s).1 = true ↔
    ∃ t, ctx.namespaceTarget = some t ∧ c.refuses s.host "command" = false ∧
      let r := c.checked ctx name t s.host
      r.success = true ∧ ∃ text, r.result = some (.text text) ∧ Text.contains text name = true := by
  have hcheck : ((c.isAvailable ctx name).run s).1 =
      (let r := ((c.run ctx "command" ("-v " ++ name)).run s).1
       r.success && (r.resultText?.map fun text => Text.contains text name).getD false) := rfl
  rw [hcheck]
  cases ht : ctx.namespaceTarget with
  | none =>
    rw [run_of_no_target _ ht]
    simp [Response.failWith, Response.fail, Response.failStatus]
  | some t =>
    cases h : c.refuses s.host "command" with
    | true =>
      rw [run_of_refuses _ ht h]
      simp [Host.missingBinary, Response.failWith, Response.fail, Response.failStatus]
    | false =>
      rw [run_of_not_refuses _ ht h, commandLine_check, Response.tells_iff]
      simp [checked]

end NamespacedChannel

/-- On every channel the check of several commands makes the checks of the single ones one after the
other, up to the first that is not available; the response then names that one, with its code. On
the host a command is available where `command -v` is executed for it, which is refused only where
`command` is taken for a missing binary of the tool, and stands for a success; inside namespaces the
result of that success has to name the command too. -/
theorem firstUnavailable_in_turn :
    (∀ (c : LocalChannel) (ownPid : UInt32),
      (c.channel ownPid).ChecksInTurn (.ofState LocalChannel.State)) ∧
    (∀ (c : NamespacedChannel) (ownPid : UInt32),
      (c.channel ownPid).ChecksInTurn (.ofState NamespacedChannel.State)) ∧
    (∀ (c : ScriptedChannel) (ownPid : UInt32),
      (c.channel ownPid).ChecksInTurn
        (.ofExcept ScriptedChannel.State ScriptedChannel.Unexpected)) ∧
    (∀ (c : LocalChannel) (ctx : Context) (name : String) (s : LocalChannel.State),
      ((c.isAvailable ctx name).run s).1 = true ↔
        c.refuses s.host "command" = false ∧ (c.checked ctx name s.host).success = true) ∧
    (∀ (c : NamespacedChannel) (ctx : Context) (name : String) (s : NamespacedChannel.State),
      ((c.isAvailable ctx name).run s).1 = true ↔
        ∃ t, ctx.namespaceTarget = some t ∧ c.refuses s.host "command" = false ∧
          let r := c.checked ctx name t s.host
          r.success = true ∧ ∃ text, r.result = some (.text text) ∧
          Text.contains text name = true) := by
  refine ⟨fun c ownPid => ?_, fun c ownPid => ?_, fun c ownPid => ?_, fun c ctx name s => ?_,
    fun c ctx name s => ?_⟩
  · exact Channel.checksInTurn _ _
  · exact Channel.checksInTurn _ _
  · exact Channel.checksInTurn _ _
  · exact c.isAvailable_iff ctx name s
  · exact c.isAvailable_iff ctx name s

/-- Inside namespaces, where the second command is not named by what its check prints: the third one
is not asked for, and the response is the one for the second, be it a utility with a code of its own
or not. -/
theorem firstUnavailable_in_turn_unnamed :
    let c : NamespacedChannel := ⟨.ofProgramPath "/opt/chaosblade"⟩
    let ctx := (Context.fresh 0).withNamespace ⟨42, false, true, false⟩
    let host : Host :=
      ⟨.start, [], .scripted [.success "/usr/bin/rm", .success "", .success "/usr/bin/mv"],
        ⟨.empty, [], []⟩, [], 7⟩
    let done := fun names => ((c.channel 7).firstUnavailable? ctx names).run ⟨host, []⟩
    let asked := fun names => (done names).2.host.executions.map (·.line.args.getLast?)
    (done ["rm", "dd", "mv"]).1 = some ⟨52008, false, "`dd`: command not found", none⟩ ∧
    asked ["rm", "dd", "mv"] = [some "command -v rm", some "command -v dd"] ∧
    (done ["rm", "%s-tool", "mv"]).1 = some ⟨52099, false, "`%s-tool`: command not found", none⟩ ∧
    asked ["rm", "%s-tool", "mv"] = [some "command -v rm", some "command -v %s-tool"] := by
  intro c ctx host done asked
  let r := Running.ofState NamespacedChannel.State
  let check := (c.channel 7).isAvailable ctx
  let first := (check "rm").run ⟨host, []⟩
  have hrm : r.run (check "rm") ⟨host, []⟩ = (.ok true, first.2) :=
    congrArg (fun b => (Except.ok b, first.2)) (show first.1 = true by decide +kernel)
  have hdone (name : String) (hname : ((check name).run first.2).1 = false) :
      done ["rm", name, "mv"] = (some (Channel.notFound name), ((check name).run first.2).2) := by
    have hturn : InTurn r check (fun () => true) (fun () => false) ["rm", name, "mv"] ⟨host, []⟩
        (.ok (.error (name, ()))) ((check name).run first.2).2 :=
      Channel.inTurn_second hrm
        (congrArg (fun b => (Except.ok b, ((check name).run first.2).2)) hname)
    have hrun := (firstUnavailable_in_turn.2.1 c 7 ctx ["rm", name, "mv"] ⟨host, []⟩).run _ _ hturn
    obtain ⟨hanswer, hafter⟩ := Prod.mk.inj hrun
    exact Prod.ext (Except.ok.inj hanswer) hafter
  have hdd := hdone "dd" (by decide +kernel)
  have htool := hdone "%s-tool" (by decide +kernel)
  simp only [asked, hdd, htool]
  exact ⟨rfl, by decide +kernel, rfl, by decide +kernel⟩

end HostReach
