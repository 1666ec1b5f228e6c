import HostReach.Channel.Basic
import HostReach.Config.Basic
import HostReach.Pid

/-!
A channel that runs nothing: commands are answered from a script and recorded, for testing what uses
a channel.
-/
namespace HostReach

structure ScriptedChannel where
  /-- Answers by command, the first one of a command counting. -/
  responses : List (String × Response) := []
  /-- The answer to other commands. -/
  fallback : Option Response := none
  /-- The commands that may be run, in order. -/
  expected : Option (List String) := none
  missing : List String := []
  platform : Platform := .standard .linux
  /-- The users of live processes; a later entry for a process counts. -/
  processes : List (UInt32 × String) := []
  selfMarkers : List String := (Config.ofProgramPath "").selfMarkers
  programPath : String := "/opt/chaosblade"

namespace ScriptedChannel

structure Unexpected where
  command : String
  expected : Option String
  deriving DecidableEq, Repr

def Unexpected.message (u : Unexpected) : String :=
  "unexpected command: " ++ u.command ++
    match u.expected with
    | some e => ", expected command: " ++ e
    | none => ", no more commands expected"

structure State where
  commands : List String := []
  checks : List String := []

/-- An action records what it asks for, also when it ends with an unexpected command. -/
abbrev Action := ExceptT Unexpected (StateM State)

def answer (c : ScriptedChannel) (command : String) : Response :=
  match c.responses.lookup command with
  | some r => r
  | none => c.fallback.getD (.failWith .illegalCommand ["unscripted `" ++ command ++ "`"])

def run (c : ScriptedChannel) (_ : Context) (script args : String) : Action Response := do
  let command := script ++ " " ++ args
  let index := (← get).commands.length
  modify fun s => { s with commands := s.commands ++ [command] }
  if let some expected := c.expected then
    if expected[index]? != some command then throw ⟨command, expected[index]?⟩
  return c.answer command

def isAvailable (c : ScriptedChannel) (_ : Context) (name : String) : Action Bool := do
  modify fun s => { s with checks := s.checks ++ [name] }
  return !c.missing.contains name

def channel (c : ScriptedChannel) (ownPid : UInt32) : Channel Action where
  name := "mock"
  selfMarkers := c.selfMarkers
  ownPid := ownPid
  run := c.run
  isAvailable := c.isAvailable
  platform _ := return c.platform

def owner? (c : ScriptedChannel) (pid : UInt32) : Option String := c.processes.reverse.lookup pid

def processExists (c : ScriptedChannel) (text : String) : Except Error Bool :=
  match Pid.ofText text with
  | .error fault => .error (.invalidPid text fault)
  | .ok pid => .ok (c.owner? pid).isSome

def ownerOf (c : ScriptedChannel) (text : String) : Except Error String :=
  match Pid.ofText text with
  | .error fault => .error (.invalidPid text fault)
  | .ok pid =>
    match c.owner? pid with
    | some user => .ok user
    | none => .error (.processNotFound pid)

end ScriptedChannel

end HostReach
