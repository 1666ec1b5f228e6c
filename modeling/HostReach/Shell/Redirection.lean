import HostReach.Shell.Expansion

/-!
Connecting descriptors. A redirection that cannot be done is reported where errors are written at
that moment, after the redirections before it.
-/
namespace HostReach.Shell

def openingFault (way : Opening) (e : OsError) : String :=
  match e, way with
  | .notFound, .read => "No such file"
  | .notDirectory, .read => "No such file"
  | .notFound, _ => "Directory nonexistent"
  | .notDirectory, _ => "Directory nonexistent"
  | e, _ => e.text

def State.refuse (s : State) (message : List Char) : State × Bool :=
  ((s.warn message).withStatus 2, false)

def deviceDescriptor? (path : String) : Option Nat :=
  match path with
  | "/dev/stdin" => some 0
  | "/dev/stdout" => some 1
  | "/dev/stderr" => some 2
  | "/dev/fd/0" => some 0
  | "/dev/fd/1" => some 1
  | "/dev/fd/2" => some 2
  | _ => none

def nullDevice : FileTree.Place := ["dev".toList, "null".toList]

def openFile (s : State) (descriptor : Nat) (way : Opening) (target : List Char) : State × Bool :=
  let path := ByteText.toString target
  let refused (e : OsError) : State × Bool :=
    let verb := if way == .read then "cannot open " else "cannot create "
    s.refuse (verb.toList ++ target ++ (": " ++ openingFault way e).toList)
  let connected (s : State) (t : Target) : State × Bool := (s.connect descriptor (some t), true)
  match deviceDescriptor? path with
  | some d => (s.connect descriptor (s.target? d), true)
  | none =>
    if way == .read then
      match s.files.find path with
      | .error e => refused e
      | .ok (_, .directory _) => connected s .nowhere
      | .ok (_, .file content) =>
        let (t, s) := s.addInput { text := ByteText.ofBytes content }
        connected s t
    else if path == "/dev/full" then connected s .full
    else if path == "/dev/tty" then
      s.refuse "cannot create /dev/tty: No such device or address".toList
    else
      match s.files.writable path with
      | .error e => refused e
      | .ok (p, content) =>
        if p == nullDevice then connected s .nowhere
        else if s.isOn 'C' && way == .write && (s.files.at? p).isSome then refused .alreadyExists
        else
          connected (s.putFile p (if way == .write || way == .overwrite then [] else content))
            (.file p)

def copyDescriptor (s : State) (descriptor : Nat) (target : List Char) : State × Bool :=
  match target with
  | ['-'] => (s.connect descriptor none, true)
  | [c] =>
    if Decimal.isDigit c then
      match s.target? (Decimal.valueOf c) with
      | some t => (s.connect descriptor (some t), true)
      | none => s.refuse (c :: ": Bad file descriptor".toList)
    else (s.failText ScriptFault.badDescriptor.message, false)
  | _ => (s.failText ScriptFault.badDescriptor.message, false)

def redirect (run : Runner) (r : Redirect) (s : State) : State × Bool :=
  match r with
  | .file descriptor way w =>
    let (target, s) := expandWhole run w s
    if s.isStopped then (s, false) else openFile s descriptor way target
  | .copy descriptor w =>
    let (target, s) := expandWhole run w s
    if s.isStopped then (s, false) else copyDescriptor s descriptor target
  | .document descriptor number =>
    let (text, s) := expandDocument run number s
    if s.flow == .failed then ({ s with flow := .onward, status := 2 }, false)
    else if s.isStopped then (s, false)
    else
      let (t, s) := s.addInput { text }
      (s.connect descriptor (some t), true)

def redirectAll (run : Runner) (s : State) : List Redirect → State × Bool
  | [] => (s, true)
  | r :: rs =>
    match redirect run r s with
    | (s, true) => redirectAll run s rs
    | (s, false) => (s, false)

end HostReach.Shell
