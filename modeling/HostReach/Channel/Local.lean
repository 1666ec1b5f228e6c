import HostReach.Channel.Basic
import HostReach.Config.Basic
import HostReach.Host

/-!
The channel of the host itself. Commands go to the shell; processes are looked up in the process
table or by pipelines.
-/
namespace HostReach

inductive LookupWay where
  | direct
  | pipeline
  deriving DecidableEq, Repr

structure LocalChannel where
  config : Config
  way : LookupWay

namespace LocalChannel

structure State where
  host : Host
  platform : Option Platform := none

abbrev Action := StateM State

/-- The shell invocation of a script with arguments. Spaces of the script are escaped, so that it
stays one word. -/
def commandLine (script args : String) : CommandLine :=
  ⟨"/bin/sh", ["-c", Text.escapeSpaces script ++ " " ++ args]⟩

def commandText (script args : String) : String := Text.escapeSpaces script ++ " " ++ args

def respond (c : LocalChannel) (ctx : Context) (script args : String) : Action Response :=
  modifyGet fun s =>
    let (r, host) := s.host.respond ctx c.config.ceiling (commandText script args)
      (commandLine script args) (c.config.isSelf script)
    (r, { s with host })

/-- Runs a script. One that looks like a binary of the tool must be there. -/
def run (c : LocalChannel) (ctx : Context) (script args : String) : Action Response := do
  if c.config.looksInstalled script then
    if let some r := (← get).host.missingBinary? script then return r
  c.respond ctx script args

def isAvailable (c : LocalChannel) (ctx : Context) (name : String) : Action Bool := do
  return (← c.run ctx "command" ("-v " ++ name)).success

/-- The dialect of the host, asked for until the answer is known and then remembered. -/
def platform (c : LocalChannel) (ctx : Context) : Action Platform := do
  let s ← get
  match s.platform with
  | some p => return p
  | none =>
    let isMissing := !s.host.machine.files.isPresent c.config.releasePath
    match ← Channel.probePlatform c.run ctx .linux c.config.releasePath isMissing with
    | none => return .standard .linux
    | some p =>
      modify fun s => { s with platform := some p }
      return p

def channel (c : LocalChannel) (ownPid : UInt32) : Channel Action where
  name := "local"
  selfMarkers := c.config.selfMarkers
  ownPid := ownPid
  run := c.run
  isAvailable := c.isAvailable
  platform := c.platform

def direct (c : LocalChannel) (ctx : Context) (keyword : String) (blank : Error)
    (select : Lookup.Query → List RunningProcess → List String) : Action Found := do
  let host := (← get).host
  let keyword := Text.trim keyword
  if keyword.isEmpty then return .error blank
  let q := Lookup.Query.ofContext keyword ctx c.config.selfMarkers host.ownPid
  return .ok (select q host.machine.snapshot)

def pidsByCommandLine (c : LocalChannel) (ctx : Context) (keyword : String) : Action Found := do
  match c.way with
  | .pipeline => (c.channel (← get).host.ownPid).pidsByCommandLine ctx keyword
  | .direct => c.direct ctx keyword Channel.keywordIsBlank Lookup.Query.byCommandLine

def pidsByName (c : LocalChannel) (ctx : Context) (name : String) : Action Found := do
  match c.way with
  | .pipeline => (c.channel (← get).host.ownPid).pidsByName ctx name
  | .direct => c.direct ctx name Channel.nameIsBlank Lookup.Query.byName

end LocalChannel

end HostReach
