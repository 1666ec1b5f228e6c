import HostReach.Text.Blank

/-!
A program with its arguments, and its text for messages.
-/
namespace HostReach

structure CommandLine where
  program : String
  args : List String
  deriving DecidableEq, Repr

namespace CommandLine

/-- An argument as it is shown: between double quotes if it is empty or holds white space. -/
def showArg (arg : String) : String :=
  if arg.isEmpty || arg.toList.any isBlank then "\"" ++ arg ++ "\"" else arg

def display (l : CommandLine) : String :=
  l.program ++ String.join (l.args.map fun a => " " ++ showArg a)

end CommandLine

end HostReach
