import HostReach.Lookup.Query

/-!
The same lookups as pipelines of `ps` or `pgrep`, `grep`, `awk` and `tr`, for a shell that runs
where the processes are, and reading the column of process ids that such a pipeline prints.
-/
namespace HostReach.Lookup

def dropWord (word : String) : String := "| grep -v -w " ++ word

def quotedWord (word : String) : String := "\"" ++ word ++ "\""

def excludeStages (c : Context) : String := String.join (c.excludes.map dropWord)

def markerStages (markers : List String) : String :=
  String.join (markers.map fun m => " " ++ dropWord m)

def escapeDash (keyword : String) : String :=
  if keyword.toList.head? == some '-' then "\\" ++ keyword else keyword

def fieldStages (field : String) : String :=
  " | awk '\x7bprint $" ++ field ++ "\x7d' | tr '\\n' ' '"

/-- The arguments for `ps` that find the processes whose command line contains a keyword. -/
def psPipeline (psArgs keyword : String) (c : Context) (markers : List String) : String :=
  let other := (c.processFilter.map fun w => "| grep " ++ quotedWord w).getD ""
  let command := (c.processCommand.map fun w => " | grep " ++ quotedWord w).getD ""
  psArgs ++ " | grep " ++ quotedWord (escapeDash keyword) ++ " " ++ other ++ command ++ " " ++
    excludeStages c ++ " | grep -v -w grep" ++ markerStages markers ++ fieldStages "2"

def pgrepPipeline (name : String) (c : Context) (markers : List String) : String :=
  "-l " ++ name ++ " " ++ excludeStages c ++ markerStages markers ++ fieldStages "1"

/-- The process ids of a column, the caller's own left out. -/
def pidsOfColumn (text : String) (ownPid : UInt32) : List String :=
  (Text.words text).filter fun w => w != pidText ownPid

end HostReach.Lookup
