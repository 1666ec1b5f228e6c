import HostReach.Path
import HostReach.Time

/-!
Where the tool is installed, what its parts are called, and the ceiling of an execution.
-/
namespace HostReach

structure Config where
  programPath : String
  binDirName : String := "bin"
  libDirName : String := "lib"
  /-- The file name of the helper that enters namespaces. -/
  helperName : String := "nsexec"
  /-- The file that names the distribution of a host. -/
  releasePath : String := "/etc/os-release"
  timeoutSeconds : UInt64 := 60
  /-- Names of the tool's own processes, which lookups leave out. -/
  selfMarkers : List String := ["chaos_killprocess", "chaos_stopprocess"]
  /-- The name the tool itself is run by. -/
  selfCommand : String := "blade"
  /-- A part of the path of every binary of the tool. -/
  installMarker : String := "/chaosblade"
  deriving DecidableEq, Repr

namespace Config

def ofProgramPath (path : String) : Config := { programPath := path }

def binDir (c : Config) : String := Path.join c.programPath c.binDirName

def libDir (c : Config) : String := Path.join c.programPath c.libDirName

def isInBin (c : Config) : Bool := Path.fileName? c.programPath == some c.binDirName.toList

def helperPath (c : Config) : String :=
  Path.join (if c.isInBin then c.programPath else c.binDir) c.helperName

def ceiling (c : Config) : Duration := .ofSeconds c.timeoutSeconds

def selfPath (c : Config) : String := Path.join c.programPath c.selfCommand

/-- Whether a script is the tool itself, by name or by path. -/
def isSelf (c : Config) (script : String) : Bool :=
  script == c.selfCommand || Path.same script c.selfPath

/-- Whether a script is a binary that is installed with the tool. -/
def looksInstalled (c : Config) (script : String) : Bool :=
  Text.contains script c.installMarker || Path.same script c.selfPath

end Config

end HostReach
