import HostReach.Shell.Print

/-!
Programs that are not built in: finding them, and what the simple ones do.
-/
namespace HostReach.Shell

structure Unfound where
  reason : String
  status : Nat
  deriving DecidableEq, Repr

def lastPiece (path : String) : String := ((Text.splitAt '/' path).getLast?).getD ""

/-- The file name of a program given by name or by path. A name of dots, and one of no characters,
stands for a directory. -/
def findProgram (s : State) (program : List Char) : Except Unfound String :=
  let path := ByteText.toString program
  let name := lastPiece path
  let notFound : Unfound := ⟨"not found", 127⟩
  if path.toList.contains '/' then
    match s.files.find path with
    | .ok (_, .file _) =>
      if s.world.programs.contains name then .ok name else .error ⟨"Permission denied", 126⟩
    | .ok (_, .directory _) => .error ⟨"Permission denied", 126⟩
    | .error .nameTooLong => .error ⟨OsError.nameTooLong.text, 127⟩
    | .error _ => .error notFound
  else if path.isEmpty || path == "." || path == ".." then .error ⟨"Permission denied", 127⟩
  else if FileTree.isTooLong path.toList then .error ⟨OsError.nameTooLong.text, 127⟩
  else if s.world.programs.contains path then .ok path
  else .error notFound

def State.unfound (s : State) (program : List Char) (u : Unfound) : State :=
  (s.warn (program ++ (": " ++ u.reason).toList)).withStatus u.status

def interval? (t : List Char) : Option Nat :=
  match readReal? (t.dropWhile Arithmetic.isBlank) with
  | none => none
  | some (x, rest) =>
    let seconds : Option Nat :=
      match rest with
      | [] => some 1
      | ['s'] => some 1
      | ['m'] => some 60
      | ['h'] => some 3600
      | ['d'] => some 86400
      | _ => none
    let (num, den) := x.toRatio
    if x.negative && num != 0 then none
    else seconds.map fun n => (num * n * 1000000000 + den - 1) / den

def sleepHint : String := "Try 'sleep --help' for more information.\n"

/-- What is wrong with the arguments of `sleep`: the first option, or else all intervals that are
none. -/
def sleepFault? (args : List (List Char)) : Option String :=
  let options := args.takeWhile (· != ['-', '-'])
  let isOption (t : List Char) : Bool := t.head? == some '-' && t.length != 1
  match options.find? isOption with
  | some ('-' :: '-' :: name) =>
    some ("sleep: unrecognized option '--" ++ ByteText.toString name ++ "'\n" ++ sleepHint)
  | some (_ :: c :: _) =>
    some ("sleep: invalid option -- '" ++ ByteText.toString [c] ++ "'\n" ++ sleepHint)
  | _ =>
    let args := options ++ (args.drop options.length).drop 1
    if args.isEmpty then some ("sleep: missing operand\n" ++ sleepHint)
    else
      match args.filter fun t => (interval? t).isNone with
      | [] => none
      | wrong =>
        let complaint (t : List Char) : String :=
          "sleep: invalid time interval '" ++ ByteText.toString t ++ "'\n"
        some (String.join (wrong.map complaint) ++ sleepHint)

def sleep (s : State) (args : List (List Char)) : State :=
  match sleepFault? args with
  | some message => (s.write 2 (ByteText.ofString message)).withStatus 1
  | none => (s.pass ((args.filterMap interval?).foldr Nat.add 0)).withStatus 0

/-- Runs a program that is not built in and is no shell. A program that is not listed here does
nothing. -/
def runInstalled (name : String) (args : List (List Char)) (s : State) : State :=
  let s := s.pass startNanos
  match name with
  | "sleep" => sleep s args
  | "false" => s.withStatus 1
  | "echo" =>
    match args with
    | ['-', 'n'] :: args => (s.print ([' '].intercalate args)).withStatus 0
    | args => (s.print ([' '].intercalate args ++ ['\n'])).withStatus 0
  | "cat" =>
    if args.isEmpty then
      match s.readable 0 with
      | some i => (((s.waitUntil i.readyAt).setReadable 0 []).print i.text).withStatus 0
      | none => s.withStatus 0
    else s.withStatus 0
  | _ => s.withStatus 0

end HostReach.Shell
