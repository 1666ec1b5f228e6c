import HostReach.Json.Record
import HostReach.Text.Blank

/-!
What decides the dialect of the tools on a host: the family of its operating system, and whether its
tools are the reduced ones of Alpine.
-/
namespace HostReach

namespace Platform

inductive Family where
  | linux
  | darwin
  | windows
  | other
  deriving DecidableEq, Repr

def Family.known : List (String × Family) :=
  [("linux", .linux), ("darwin", .darwin), ("windows", .windows), ("other", .other)]

def Family.name : Family → String
  | .linux => "linux"
  | .darwin => "darwin"
  | .windows => "windows"
  | .other => "other"

end Platform

structure Platform where
  family : Platform.Family
  alpine : Bool
  deriving DecidableEq, Repr

namespace Platform

def standard (family : Family) : Platform := ⟨family, false⟩

def ofReleaseId (family : Family) (id : String) : Platform := ⟨family, Text.trim id == "alpine"⟩

/-- The arguments for `ps` that print user, pid, parent and command line of every process. The
reduced `ps` has no `-e`. -/
def psArgs (p : Platform) : String :=
  if p.alpine then "-o user,pid,ppid,args" else "-eo user,pid,ppid,args"

def releaseIdProgram : String := "-F '=' '\x7bif ($1 == \"ID\") \x7bprint $2;exit 0\x7d\x7d'"

def toJson (p : Platform) : Json.Value :=
  .object (.ofList [("os", .text p.family.name), ("alpine", .bool p.alpine)])

structure Draft where
  family : Option Family := none
  alpine : Option Bool := none

def shape : Json.Shape Draft where
  name := "PlatformProfile"
  fields :=
    [.of "os" false (·.family.isSome) (fun f d => { d with family := some f })
       (Json.readVariant Family.known),
     .of "alpine" false (·.alpine.isSome) (fun b d => { d with alpine := some b }) fun _ =>
       Json.readBool]

def Draft.platform (d : Draft) : Platform := ⟨d.family.getD .other, d.alpine.getD false⟩

def ofText (text : String) : Except Json.Fault Platform := (shape.ofText {} text).map Draft.platform

end Platform

end HostReach
