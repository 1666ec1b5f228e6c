import HostReach.Config.Basic
import HostReach.FileTree.Operation
import HostReach.Json.Record

/-!
A configuration as a JSON file. Every field may be missing; a file that is not there stands for the
defaults. A file is replaced by writing beside it and renaming.
-/
namespace HostReach.Config

def toJson (c : Config) : Json.Value :=
  .object <| .ofList
    [("programPath", .text c.programPath),
     ("binDirName", .text c.binDirName),
     ("libDirName", .text c.libDirName),
     ("nsexecBin", .text c.helperName),
     ("osReleasePath", .text c.releasePath),
     ("execTimeoutSecs", .int c.timeoutSeconds.toNat),
     ("selfMarkers", .array (.ofList (c.selfMarkers.map .text))),
     ("selfCommand", .text c.selfCommand),
     ("installMarker", .text c.installMarker)]

structure Draft where
  programPath : Option String := none
  binDirName : Option String := none
  libDirName : Option String := none
  helperName : Option String := none
  releasePath : Option String := none
  timeoutSeconds : Option UInt64 := none
  selfMarkers : Option (List String) := none
  selfCommand : Option String := none
  installMarker : Option String := none

def Draft.over (d : Draft) (c : Config) : Config where
  programPath := d.programPath.getD c.programPath
  binDirName := d.binDirName.getD c.binDirName
  libDirName := d.libDirName.getD c.libDirName
  helperName := d.helperName.getD c.helperName
  releasePath := d.releasePath.getD c.releasePath
  timeoutSeconds := d.timeoutSeconds.getD c.timeoutSeconds
  selfMarkers := d.selfMarkers.getD c.selfMarkers
  selfCommand := d.selfCommand.getD c.selfCommand
  installMarker := d.installMarker.getD c.installMarker

namespace Draft

def textField (key expected : String) (get : Draft → Option String)
    (store : String → Draft → Draft) : Json.Field Draft :=
  .of key true (fun d => (get d).isSome) store fun _ => Json.readTextOf expected

def shape : Json.Shape Draft where
  name := "ChannelConfig"
  fields :=
    [textField "programPath" "path string" (·.programPath) fun s d =>
      { d with programPath := some s },
     textField "binDirName" "a string" (·.binDirName) fun s d => { d with binDirName := some s },
     textField "libDirName" "a string" (·.libDirName) fun s d => { d with libDirName := some s },
     textField "nsexecBin" "a string" (·.helperName) fun s d => { d with helperName := some s },
     textField "osReleasePath" "path string" (·.releasePath) fun s d =>
       { d with releasePath := some s },
     .of "execTimeoutSecs" true (·.timeoutSeconds.isSome)
       (fun n d => { d with timeoutSeconds := some (UInt64.ofNat n.toNat) }) fun _ =>
       Json.readInt "u64" 0 (Nat.pow 2 64 - 1),
     .of "selfMarkers" true (·.selfMarkers.isSome)
       (fun ss d => { d with selfMarkers := some ss }) Json.readTexts,
     textField "selfCommand" "a string" (·.selfCommand) fun s d => { d with selfCommand := some s },
     textField "installMarker" "a string" (·.installMarker) fun s d =>
       { d with installMarker := some s }]

end Draft

def ofText (defaults : Config) (text : String) : Except Json.Fault Config :=
  (Draft.shape.ofText {} text).map fun d => d.over defaults

def fileText (c : Config) : String := c.toJson.indented [' ', ' ']

inductive FileFault where
  | unreadable (e : OsError)
  | notUtf8
  | malformed (text : String) (fault : Json.Fault)
  | noDirectory (e : OsError)
  | noTempFile (e : OsError)
  | unwritten (e : OsError)
  | unsynced (e : OsError)
  | notRenamed (e : OsError)
  deriving DecidableEq, Repr

def FileFault.message : FileFault → String
  | .unreadable e => "Failed to read config: " ++ e.message
  | .notUtf8 => "Failed to read config: stream did not contain valid UTF-8"
  | .malformed text fault => "Failed to parse config: " ++ fault.message text.toList
  | .noDirectory e => "Failed to create config directory: " ++ e.message
  | .noTempFile e => "Failed to create temp config file: " ++ e.message
  | .unwritten e => "Failed to write config: " ++ e.message
  | .unsynced e => "Failed to sync config: " ++ e.message
  | .notRenamed e => "Failed to rename config file: " ++ e.message

def load (defaults : Config) (t : FileTree) (path : String) : Except FileFault Config :=
  if !t.isPresent path then .ok defaults
  else
    match t.contents path with
    | .error e => .error (.unreadable e)
    | .ok bytes =>
      match Utf8.decode? bytes with
      | none => .error .notUtf8
      | some text => (ofText defaults text).mapError (.malformed text)

def tempPath (path : String) : String := Path.withExtension path "json.tmp"

/-- How the storing of a new file's content ends: the content is on the disk, or the writing breaks
off after some bytes, or what is written does not get to the disk. -/
inductive Storing where
  | complete
  | brokenOff (count : Nat) (e : OsError)
  | unsynced (e : OsError)
  deriving DecidableEq, Repr

def Storing.written : Storing → List UInt8 → List UInt8
  | .brokenOff count _, bytes => bytes.take count
  | _, bytes => bytes

def Storing.fault? : Storing → Option FileFault
  | .complete => none
  | .brokenOff _ e => some (.unwritten e)
  | .unsynced e => some (.unsynced e)

/-- Writes a configuration to a path: the directories above it, a file beside it, then the
renaming. -/
def saveWith (storing : Storing) (c : Config) (t : FileTree)
    (path : String) : FileTree × Except FileFault Unit :=
  let (t, made) := t.makeDirectories (Path.ancestors path).tail
  match made with
  | .error e => (t, .error (.noDirectory e))
  | .ok () =>
    match t.writeFile (tempPath path) (storing.written (Utf8.encode c.fileText)) with
    | .error e => (t, .error (.noTempFile e))
    | .ok t =>
      match storing.fault? with
      | some f => (t, .error f)
      | none =>
        match t.renameFile (tempPath path) path with
        | .error e => (t, .error (.notRenamed e))
        | .ok t => (t, .ok ())

def save (c : Config) (t : FileTree) (path : String) : FileTree × Except FileFault Unit :=
  saveWith .complete c t path

end HostReach.Config
