import HostReach.Command.Outcome
import HostReach.Error
import HostReach.Lookup.Pipeline
import HostReach.Platform
import HostReach.Socket

/-!
A channel runs commands somewhere: on the host, inside the namespaces of a process, or nowhere at
all. The lookups are written once, on top of what a channel offers, so they find the processes of
the place where its commands run.
-/
namespace HostReach

structure Channel (m : Type → Type) where
  name : String
  /-- Names of the tool's own processes, which lookups leave out. -/
  selfMarkers : List String
  /-- The id of the calling process, which lookups leave out. -/
  ownPid : UInt32
  run : Context → String → String → m Response
  isAvailable : Context → String → m Bool
  platform : Context → m Platform

abbrev Found := Except Error (List String)

namespace Channel

variable {m : Type → Type} [Monad m]

def psArgs (c : Channel m) (ctx : Context) : m String := do
  return (← c.platform ctx).psArgs

def isAlpine (c : Channel m) (ctx : Context) : m Bool := do
  return (← c.platform ctx).alpine

def unavailable (name : String) : Response :=
  match ResultCode.utilityNotFound? name with
  | some code => .failWith code []
  | none => .failWith .commandNotFound [name]

def firstUnavailable? (c : Channel m) (ctx : Context) : List String → m (Option Response)
  | [] => return none
  | name :: names => do
    if ← c.isAvailable ctx name then c.firstUnavailable? ctx names
    else return some (unavailable name)

def pidsOnPort (c : Channel m) (ctx : Context) (port : String) : m Found := do
  if !(← c.isAvailable ctx "ss") then
    return .error (.toolNotFound "ss" "get pid by port")
  let r ← c.run ctx "ss" (Socket.listenArgs port)
  if r.success then return .ok (Socket.pidsOfTable (r.resultText?.getD ""))
  else return .error (.commandFailed r.error)

/-- The processes that listen on some ports, port by port; the first failure is that of the
whole. -/
def pidsOnEach (c : Channel m) (ctx : Context) : List String → m Found
  | [] => return .ok []
  | port :: ports => do
    match ← c.pidsOnPort ctx port with
    | .error e => return .error (.portLookup port e)
    | .ok pids =>
      match ← c.pidsOnEach ctx ports with
      | .error e => return .error e
      | .ok more => return .ok (pids ++ more)

def pidsOnPorts (c : Channel m) (ctx : Context) (ports : List String) : m Found :=
  if ports.isEmpty then return .error (.invalidArgument "the local port parameter is empty")
  else c.pidsOnEach ctx ports

def pidsOfResponse (c : Channel m) (r : Response) : Found :=
  if r.success then .ok (Lookup.pidsOfColumn (r.resultText?.getD "") c.ownPid)
  else .error (.commandFailed r.error)

def keywordIsBlank : Error := .invalidArgument "process keyword is blank"
def nameIsBlank : Error := .invalidArgument "processName is blank"

def pidsByCommandLine (c : Channel m) (ctx : Context) (keyword : String) : m Found := do
  let keyword := Text.trim keyword
  if keyword.isEmpty then return .error keywordIsBlank
  let psArgs ← c.psArgs ctx
  let r ← c.run ctx "ps" (Lookup.psPipeline psArgs keyword ctx c.selfMarkers)
  return c.pidsOfResponse r

def pidsByName (c : Channel m) (ctx : Context) (name : String) : m Found := do
  let name := Text.trim name
  if name.isEmpty then return .error nameIsBlank
  let r ← c.run ctx "pgrep" (Lookup.pgrepPipeline name ctx c.selfMarkers)
  return c.pidsOfResponse r

def platformOfResponse? (family : Platform.Family) (r : Response) : Option Platform :=
  if r.success then r.resultText?.map (Platform.ofReleaseId family) else none

/-- Asks for the dialect by running commands. A release file that is known to be missing stands for
the standard dialect; none means that the command failed. -/
def probePlatform (run : Context → String → String → m Response) (ctx : Context)
    (family : Platform.Family) (releasePath : String) (isMissing : Bool) : m (Option Platform) := do
  if family == .windows || isMissing then return some (.standard family)
  let r ← run ctx "awk" (Platform.releaseIdProgram ++ " " ++ releasePath)
  return platformOfResponse? family r

end Channel

end HostReach
