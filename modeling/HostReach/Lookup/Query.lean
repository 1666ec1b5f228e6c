import HostReach.Context

/-!
Finding processes in a table by the rules of a context: a keyword, the filters, and what is
excluded.
-/
namespace HostReach

structure RunningProcess where
  pid : UInt32
  name : String
  commandLine : String
  deriving DecidableEq, Repr

namespace Lookup

def pidText (pid : UInt32) : String := Decimal.ofNat pid.toNat

structure Query where
  keyword : String
  alsoContains : Option String
  command : Option String
  excludes : List String
  ownPid : UInt32
  deriving DecidableEq, Repr

namespace Query

/-- The rules of a context for a keyword. Markers name the program's own helpers, which are excluded
too. -/
def ofContext (keyword : String) (c : Context) (markers : List String)
    (ownPid : UInt32) : Query where
  keyword := keyword
  alsoContains := c.processFilter
  command := c.processCommand
  excludes := Context.cleanNames (c.excludes ++ markers)
  ownPid := ownPid

def required (q : Query) : List String := q.keyword :: q.alsoContains.toList ++ q.command.toList

def isExcluded (q : Query) (commandLine : String) : Bool :=
  q.excludes.any fun e => Text.contains commandLine e

def matchesCommandLine (q : Query) (p : RunningProcess) : Bool :=
  q.required.all (fun w => Text.contains p.commandLine w) && !q.isExcluded p.commandLine &&
    p.pid != q.ownPid

def matchesName (q : Query) (p : RunningProcess) : Bool :=
  p.name == q.keyword && p.pid != q.ownPid && !q.isExcluded p.commandLine

def byCommandLine (q : Query) (table : List RunningProcess) : List String :=
  (table.filter q.matchesCommandLine).map fun p => pidText p.pid

def byName (q : Query) (table : List RunningProcess) : List String :=
  (table.filter q.matchesName).map fun p => pidText p.pid

end Query

end Lookup

end HostReach
