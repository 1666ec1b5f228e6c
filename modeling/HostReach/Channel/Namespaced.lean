import HostReach.Channel.Basic
import HostReach.Config.Basic
import HostReach.Host

/-!
The channel into the namespaces of a process. Every command goes through the helper, which enters
the namespaces that the context names; without such a process nothing runs.
-/
namespace HostReach

structure NamespacedChannel where
  config : Config

namespace NamespacedChannel

structure State where
  host : Host
  platforms : List (UInt32 × Platform) := []

abbrev Action := StateM State

def helperOptions (t : NamespaceTarget) : List String :=
  ["-t", Decimal.ofNat t.pid.toNat] ++ (if t.entersPid then ["-p"] else []) ++
    (if t.entersMount then ["-m"] else []) ++ (if t.entersNet then ["-n"] else [])

def payload (script args : String) : String :=
  if args.isEmpty then script else script ++ " " ++ args

def commandLine (c : NamespacedChannel) (t : NamespaceTarget) (script args : String) :
    CommandLine :=
  ⟨c.config.helperPath, helperOptions t ++ ["--", "/bin/sh", "-c", payload script args]⟩

def respond (c : NamespacedChannel) (ctx : Context) (t : NamespaceTarget) (script args : String) :
    Action Response :=
  modifyGet fun s =>
    let line := c.commandLine t script args
    let (r, host) := s.host.respond ctx c.config.ceiling line.display line (c.config.isSelf script)
    (r, { s with host })

/-- Runs a script inside the namespaces. The tool itself must be there. -/
def run (c : NamespacedChannel) (ctx : Context) (script args : String) : Action Response := do
  match ctx.namespaceTarget with
  | none => return .failWith .illegalCommand [script]
  | some t =>
    if c.config.isSelf script then
      if let some r := (← get).host.missingBinary? script then return r
    c.respond ctx t script args

/-- Whether a command can be run. Its name must be in the answer, since the helper may succeed where
the command is not. -/
def isAvailable (c : NamespacedChannel) (ctx : Context) (name : String) : Action Bool := do
  let r ← c.run ctx "command" ("-v " ++ name)
  return r.success && (r.resultText?.map fun out => Text.contains out name).getD false

def platform (c : NamespacedChannel) (ctx : Context) : Action Platform := do
  match ctx.namespaceTarget with
  | none => return .standard .linux
  | some t =>
    match (← get).platforms.lookup t.pid with
    | some p => return p
    | none =>
      match ← Channel.probePlatform c.run ctx .linux c.config.releasePath false with
      | none => return .standard .linux
      | some p =>
        modify fun s => { s with platforms := (t.pid, p) :: s.platforms }
        return p

def channel (c : NamespacedChannel) (ownPid : UInt32) : Channel Action where
  name := "nsexec"
  selfMarkers := c.config.selfMarkers
  ownPid := ownPid
  run := c.run
  isAvailable := c.isAvailable
  platform := c.platform

end NamespacedChannel

end HostReach
