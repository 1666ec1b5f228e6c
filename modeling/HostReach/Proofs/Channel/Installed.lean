import HostReach.Proofs.Channel.Execution
import HostReach.Proofs.Response.Template

/-!
Binaries of the tool that are not there. Each channel refuses to run some and executes everything
else, one command line for one run; but what a binary of the tool looks like is not the same for the
two channels.
-/
namespace HostReach

def absence (script : String) : Response :=
  ⟨51000, false, "`" ++ script ++ "`: chaosblade file not found", none⟩

theorem Host.missingBinary_eq (script : String) : Host.missingBinary script = absence script := by
  simp only [missingBinary, Response.failWith, Response.fail, Response.failStatus,
    ResultCode.render_binaryNotFound]
  rfl

/-- A run that is executed: the record gets one command line more, and the response is that of its
outcome. -/
def Executes (config : Config) (ctx : Context) (line : CommandLine) (command : String)
    (isSelf : Bool) (before after : Host) (r : Response) : Prop :=
  let limit := ctx.limit before.now config.ceiling
  after.executions = before.executions ++ [before.next line limit] ∧
    r = (before.outcomeOf line limit).classify command isSelf

namespace LocalChannel

variable (c : LocalChannel) (ctx : Context) (script args : String) (s : State)

theorem refuses_iff {h : Host} : c.refuses h script = true ↔
    c.config.looksInstalled script = true ∧ h.machine.files.isPresent script = false := by
  rw [refuses, Bool.and_eq_true, Bool.not_eq_true']

theorem run_cases :
    (c.refuses s.host script = true → (c.run ctx script args).run s = (absence script, s)) ∧
    (¬c.refuses s.host script = true →
      let done := (c.run ctx script args).run s
      Executes c.config ctx (commandLine script args) (commandText script args)
        (c.config.isSelf script)
        s.host done.2.host done.1) := by
  rw [← Host.missingBinary_eq]
  refine ⟨run_of_refuses ctx args, fun h => ?_⟩
  simp only [run_of_not_refuses ctx args (Bool.eq_false_iff.mpr h)]
  exact ⟨rfl, rfl⟩

end LocalChannel

namespace NamespacedChannel

variable (c : NamespacedChannel) {ctx : Context} {t : NamespaceTarget}
    (script args : String) (s : State)

theorem refuses_iff {h : Host} : c.refuses h script = true ↔
    c.config.isSelf script = true ∧ h.machine.files.isPresent script = false := by
  rw [refuses, Bool.and_eq_true, Bool.not_eq_true']

theorem run_cases (ht : ctx.namespaceTarget = some t) :
    (c.refuses s.host script = true → (c.run ctx script args).run s = (absence script, s)) ∧
    (¬c.refuses s.host script = true →
      let done := (c.run ctx script args).run s
      Executes c.config ctx (c.commandLine t script args) (c.commandLine t script args).display
        (c.config.isSelf script) s.host done.2.host done.1) := by
  rw [← Host.missingBinary_eq]
  refine ⟨run_of_refuses args ht, fun h => ?_⟩
  simp only [run_of_not_refuses args ht (Bool.eq_false_iff.mpr h)]
  exact ⟨rfl, rfl⟩

end NamespacedChannel

/-- The two predicates of a script agree on the path of the tool itself and on what is either both
marked as installed and the bare name of the tool, or neither. -/
theorem Config.isSelf_eq_looksInstalled_iff (config : Config) (script : String) :
    (config.isSelf script = true ↔ config.looksInstalled script = true) ↔
      Path.same script config.selfPath = true ∨
        (script = config.selfCommand ↔ Text.contains script config.installMarker = true) := by
  rw [isSelf, looksInstalled, Bool.or_eq_true, Bool.or_eq_true, beq_iff_eq]
  by_cases hsame : Path.same script config.selfPath = true
  · simp [hsame]
  · simp [hsame]

/-- A script that is not there is refused on the host where it looks like a binary that is installed
with the tool, and inside namespaces where it is the tool itself; every other run executes one
command line and answers with the response of its outcome. So the channels refuse the same, of what
is not there, just where the two predicates of the configuration agree. -/
theorem run_missing_installed (config : Config) (ctx : Context) (script args : String) :
    (∀ (way : LookupWay) (s : LocalChannel.State),
      let done := (LocalChannel.run ⟨config, way⟩ ctx script args).run s
      let isMissing := config.looksInstalled script = true ∧
        s.host.machine.files.isPresent script = false
      (isMissing → done = (absence script, s)) ∧
      (¬isMissing → Executes config ctx (LocalChannel.commandLine script args)
        (LocalChannel.commandText script args) (config.isSelf script) s.host done.2.host done.1)) ∧
    (∀ (t : NamespaceTarget) (s : NamespacedChannel.State), ctx.namespaceTarget = some t →
      let done := (NamespacedChannel.run ⟨config⟩ ctx script args).run s
      let line := NamespacedChannel.commandLine ⟨config⟩ t script args
      let isMissing := config.isSelf script = true ∧ s.host.machine.files.isPresent script = false
      (isMissing → done = (absence script, s)) ∧
      (¬isMissing →
        Executes config ctx line line.display (config.isSelf script) s.host done.2.host done.1)) ∧
    ((config.isSelf script = true ↔ config.looksInstalled script = true) ↔
      Path.same script config.selfPath = true ∨
        (script = config.selfCommand ↔ Text.contains script config.installMarker = true)) := by
  refine ⟨fun way s => ?_, fun t s ht => ?_, config.isSelf_eq_looksInstalled_iff script⟩
  · have hcases := LocalChannel.run_cases ⟨config, way⟩ ctx script args s
    rwa [LocalChannel.refuses_iff] at hcases
  · have hcases := NamespacedChannel.run_cases ⟨config⟩ script args s ht
    rwa [NamespacedChannel.refuses_iff] at hcases

/-- A binary beside the tool and the tool by its name, neither of them there: each is refused by one
channel and executed by the other. -/
theorem run_missing_installed_disagreement :
    let config := Config.ofProgramPath "/opt/chaosblade"
    let target : NamespaceTarget := ⟨42, false, true, false⟩
    let ctx := (Context.fresh 0).withNamespace target
    let host : Host := ⟨.start, [], .scripted [.success "ok"], ⟨.empty, [], []⟩, [], 7⟩
    let onHost :=
      fun script => (LocalChannel.run ⟨config, .pipeline⟩ ctx script "create").run ⟨host, none⟩
    let inside := fun script => (NamespacedChannel.run ⟨config⟩ ctx script "create").run ⟨host, []⟩
    let line := fun script => NamespacedChannel.commandLine ⟨config⟩ target script "create"
    (onHost "/opt/chaosblade/bin/chaos_os" =
      (absence "/opt/chaosblade/bin/chaos_os", ⟨host, none⟩) ∧
      Executes config ctx (line "/opt/chaosblade/bin/chaos_os")
        (line "/opt/chaosblade/bin/chaos_os").display
        false host (inside "/opt/chaosblade/bin/chaos_os").2.host
          (inside "/opt/chaosblade/bin/chaos_os").1) ∧
    (Executes config ctx (LocalChannel.commandLine "blade" "create") "blade create" true host
        (onHost "blade").2.host (onHost "blade").1 ∧
      inside "blade" = (absence "blade", ⟨host, []⟩)) := by
  intro config target ctx host onHost inside line
  have hbinary := run_missing_installed config ctx "/opt/chaosblade/bin/chaos_os" "create"
  have htool := run_missing_installed config ctx "blade" "create"
  have hinside := (hbinary.2.1 target ⟨host, []⟩ rfl).2 (by decide)
  have honHost := (htool.1 .pipeline ⟨host, none⟩).2 (by decide)
  rw [show config.isSelf "/opt/chaosblade/bin/chaos_os" = false by decide] at hinside
  rw [show config.isSelf "blade" = true by decide] at honHost
  exact ⟨⟨(hbinary.1 .pipeline ⟨host, none⟩).1 (by decide), hinside⟩,
    honHost, (htool.2.1 target ⟨host, []⟩ rfl).1 (by decide)⟩

end HostReach
