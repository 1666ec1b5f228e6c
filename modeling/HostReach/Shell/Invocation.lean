import HostReach.Shell.Run

/-!
Starting programs. The shell takes options, and then a script that is given as an argument, as a
file or as its input.
-/
namespace HostReach.Shell

/-- How many shells may run one inside the other, and how deep the commands of one may nest. -/
def maxShells : Nat := 1000

def maxNesting : Nat := 100000

def firstPid : Nat := 4321

def outsidePid : Nat := 4320

def State.initial (files : FileTree) (programs : List String) (limit : Nat)
    (name : String) : State :=
  let kept (name value : String) : List Char × Variable :=
    (name.toList, { value := some value.toList, isExported := true })
  let s : State :=
    { world := { files, programs, limit, fresh := firstPid + 1 }
      name := ByteText.ofString name
      pid := firstPid
      scriptPid := firstPid
      bindings :=
        [kept "PATH" "/usr/local/sbin:/usr/local/bin:/usr/sbin:/usr/bin:/sbin:/bin",
          kept "HOME" "/root"]
      descriptors := [(0, .nowhere), (1, .stream 0), (2, .stream 0)] }
  s.setVariable "PWD".toList (some { value := some s.directoryText, isExported := true })

def State.ownVariables (s : State) : List (String × String) :=
  [("IFS", " \t\n"), ("OPTIND", "1"), ("PPID", Decimal.ofNat (s.parents.headD outsidePid)),
    ("PS1", "# "), ("PS2", "> "), ("PS4", "+ ")]

def State.entered (s : State) : State :=
  let s : State :=
    { s with
      args := [], speaker := "", line := 0, functions := [], aliases := []
      loops := 0, depth := 0, locals := []
      options := [], optionOffset := 0, status := 0, tested := false, jobs := [], lastJob := none
      scriptPid := s.pid }
  s.ownVariables.foldl
    (fun s (name, value) => s.setVariable name.toList (some { value := some value.toList })) s

def readFlags (fuel : Nat) (isArgument : Bool) (s : State) (args : Args) : State × Bool × Args :=
  match fuel, args with
  | fuel + 1, (sign :: letters) :: more =>
    if args.head? == some ['-'] || args.head? == some ['-', '-'] then (s, isArgument, more)
    else if sign == '-' || sign == '+' then
      let (s, more) :=
        setLetters (sign == '-') s more (letters.filter fun c => c != 'c' && c != 'l')
      if s.flow != .onward then (s, isArgument, more)
      else readFlags fuel (isArgument || letters.contains 'c') s more
    else (s, isArgument, args)
  | _, args => (s, isArgument, args)

/-- The shell once its options are known. Who asks for commands wants to control jobs. -/
def State.begun (s : State) : State := if s.isOn 'i' || s.isOn 'm' then s.withoutControl else s

def runScript (run : Runner) (isArgument : Bool) (s : State) (args : Args) : State :=
  match isArgument, args with
  | true, [] => s.failText "-c requires an argument"
  | true, script :: args =>
    let s := s.begun
    runText run script
      { s with name := args.headD s.name, args := args.tail, line := 1 }
  | false, args =>
    if args.isEmpty || s.isOn 's' then
      let s := s.begun
      let input := (s.readable 0).getD { text := [] }
      let s := (s.waitUntil input.readyAt).setReadable 0 []
      runLines run (input.text.length + 2) false
        { Source.ofText input.text with comesInLines := true }
        { s with args, line := 1 }
    else
      let path := args.headD []
      let named (s : State) : State := { s with name := path, args := args.tail, line := 1 }
      match s.files.find (ByteText.toString path) with
      | .error e => s.fail ("cannot open ".toList ++ path ++ (": " ++ openingFault .read e).toList)
      | .ok (_, .directory _) => (named s).begun
      | .ok (_, .file content) =>
        let t := ByteText.ofBytes content
        runLines run (t.length + 2) false { Source.ofText t with comesInLines := true }
          (named s.begun)

/-- Runs the shell with arguments to its end. While options are read, those that are not yet given
count as set; only a list of them shows that. -/
def runShell (shells : Nat) (s : State) (args : Args) : State :=
  match shells with
  | 0 => { s with flow := .endless }
  | shells + 1 =>
    let run := run (runShell shells) maxNesting
    let s := s.entered.pass startNanos
    let read (options : List Char) : State × Bool × Args :=
      readFlags (args.length + 1) false { s with options } args
    let (shown, isArgument, more) := read (shellOptions.map (·.letter))
    let s := { shown with options := (read []).1.options }
    finish run (if s.flow != .onward then s else runScript run isArgument s more)

def start (file : String) (args : List String) (s : State) : State :=
  let args := args.map ByteText.ofString
  if file == "sh" || file == "dash" then runShell maxShells s args
  else
    let after := runInstalled file args s
    if after.isStopped then after else after.exitWith after.status

end HostReach.Shell
