/-!
The options of the shell. Those that are set are kept as letters; of the two ways of editing lines
at most one is set.
-/
namespace HostReach.Shell

/-- An option of the shell. A hidden one is known by its name alone. -/
structure ShellOption where
  name : String
  letter : Char
  isHidden : Bool
  deriving DecidableEq, Repr

def shellOptions : List ShellOption :=
  [⟨"errexit", 'e', false⟩, ⟨"noglob", 'f', false⟩, ⟨"ignoreeof", 'I', false⟩,
    ⟨"interactive", 'i', false⟩, ⟨"monitor", 'm', false⟩, ⟨"noexec", 'n', false⟩,
    ⟨"stdin", 's', false⟩, ⟨"xtrace", 'x', false⟩, ⟨"verbose", 'v', false⟩, ⟨"vi", 'V', false⟩,
    ⟨"emacs", 'E', false⟩, ⟨"noclobber", 'C', false⟩, ⟨"allexport", 'a', false⟩,
    ⟨"notify", 'b', false⟩, ⟨"nounset", 'u', false⟩, ⟨"privileged", 'p', false⟩,
    ⟨"nolog", 'L', true⟩, ⟨"debug", 'D', true⟩]

def setOption (value : Bool) (letter : Char) (options : List Char) : List Char :=
  let replaced := match value, letter with
    | true, 'V' => ['V', 'E']
    | true, 'E' => ['E', 'V']
    | _, c => [c]
  let others := options.filter fun c => !replaced.contains c
  if value then letter :: others else others

def optionLetters (options : List Char) : List Char :=
  ((shellOptions.filter fun o => !o.isHidden && options.contains o.letter).map (·.letter)).reverse

end HostReach.Shell
