import HostReach.Config.File
import HostReach.Error
import HostReach.Proofs.FileTree.Access

/-!
What a save leaves behind that fails. Up to the making of the new file nothing is changed but for
directories; from then on the new file stays.
-/
namespace HostReach.Config

open FileTree

variable {storing : Storing} {c : Config} {t u : FileTree} {path : String} {f : FileFault}

def stored (storing : Storing) (c : Config) : List UInt8 := storing.written (Utf8.encode c.fileText)

theorem Storing.written_of_fault? (h : storing.fault? = none) (bytes : List UInt8) :
    storing.written bytes = bytes := by
  cases storing with
  | complete => rfl
  | brokenOff count e => cases h
  | unsynced e => cases h

/-- The tree after the directories have been made for a save, all of them or not. -/
def prepared (t : FileTree) (path : String) : FileTree :=
  (t.makeDirectories (Path.ancestors path).tail).1

theorem spares_prepared (t : FileTree) (path : String) :
    Spares t (prepared t path) fun _ => False :=
  spares_makeDirectories _ t

/-- How a save ends: before there is a new file, with the new file where it was written, or with it
renamed. -/
inductive Ends (storing : Storing) (c : Config) (t : FileTree) (path : String) :
    FileTree × Except FileFault Unit → Prop
  | noDirectory (e : OsError) : Ends storing c t path (prepared t path, .error (.noDirectory e))
  | noTempFile (e : OsError) : Ends storing c t path (prepared t path, .error (.noTempFile e))
  | notStored (u : FileTree) (f : FileFault) :
    (prepared t path).writeFile (tempPath path) (stored storing c) = .ok u →
    storing.fault? = some f →
      Ends storing c t path (u, .error f)
  | notRenamed (u : FileTree) (e : OsError) :
    (prepared t path).writeFile (tempPath path) (stored storing c) = .ok u → storing.fault? = none →
      Ends storing c t path (u, .error (.notRenamed e))
  | saved (u v : FileTree) :
    (prepared t path).writeFile (tempPath path) (stored storing c) = .ok u → storing.fault? = none →
      u.renameFile (tempPath path) path = .ok v → Ends storing c t path (v, .ok ())

theorem ends_saveWith (storing : Storing) (c : Config) (t : FileTree) (path : String) :
    Ends storing c t path (saveWith storing c t path) := by
  unfold saveWith
  cases hmade : t.makeDirectories (Path.ancestors path).tail with
  | mk made r =>
    have hprepared : prepared t path = made := by rw [prepared, hmade]
    cases r with
    | error e => exact hprepared ▸ .noDirectory e
    | ok _ =>
      cases hwrite : made.writeFile (tempPath path) (storing.written (Utf8.encode c.fileText)) with
      | error e =>
        simp only [hwrite]
        exact hprepared ▸ .noTempFile e
      | ok u =>
        simp only [hwrite]
        rw [← hprepared] at hwrite
        cases hfault : storing.fault? with
        | some f => exact .notStored u f hwrite hfault
        | none =>
          simp only
          cases hrename : u.renameFile (tempPath path) path with
          | error e => exact .notRenamed u e hwrite hfault
          | ok v => exact .saved u v hwrite hfault hrename

/-- The new file holds the content, at the path that it was to be renamed from, and no other file is
changed. -/
def LeavesNewFile (t after : FileTree) (path : String) (content : List UInt8) : Prop :=
  ∃ q, after.find (tempPath path) = .ok (q, .file content) ∧ Spares t after (· = q)

/-- What a save leaves behind by what it fails with: the files as they were, or the new file
besides. -/
def LeavesBehind (storing : Storing) (c : Config) (t after : FileTree)
    (path : String) : FileFault → Prop
  | .noDirectory _ | .noTempFile _ => Spares t after fun _ => False
  | .unwritten e =>
    ∃ count, storing = .brokenOff count e ∧
    LeavesNewFile t after path ((Utf8.encode c.fileText).take count)
  | .unsynced e => storing = .unsynced e ∧ LeavesNewFile t after path (Utf8.encode c.fileText)
  | .notRenamed _ => storing = .complete ∧ LeavesNewFile t after path (Utf8.encode c.fileText)
  | .unreadable _ | .notUtf8 | .malformed _ _ => False

theorem leavesNewFile_of_writeFile {content : List UInt8}
    (hwrite : (prepared t path).writeFile (tempPath path) content = .ok u) :
    LeavesNewFile t u path content := by
  obtain ⟨p, x, rfl, -, hdirectory, hold, hfind⟩ := writeFile_eq_ok hwrite
  have hprepared : Spares t (prepared t path) (· = p ++ [x]) :=
    (spares_prepared t path).mono fun _ h => h.elim
  exact ⟨p ++ [x], hfind, hprepared.trans (spares_put_file hdirectory hold content)⟩

def besideDirectory : FileTree :=
  .ofList [([['d']], .directory .nil), (["d.json.tmp".toList], .file [107])]

end HostReach.Config
