import HostReach.Config.File
import HostReach.Proofs.Json.Printed
import HostReach.Proofs.Json.RecordText
import HostReach.Proofs.Json.Texts

/-!
A configuration written as JSON is read back, whatever its texts and its markers are. All its fields
are written, so nothing of the defaults comes in.
-/
namespace HostReach.Config

open Json

namespace Draft

def textSlot (key expected : String) (get : Draft → Option String) (set : String → Draft → Draft)
    (get_set : ∀ s d, get (set s d) = some s) : Slot Draft :=
  .of key true get set id (reads_text expected) get_set

def timeoutSlot : Slot Draft :=
  .of "execTimeoutSecs" true (·.timeoutSeconds) (fun n d => { d with timeoutSeconds := some n })
    (fun n : Int => UInt64.ofNat n.toNat) (reads_int "u64" 0 (Nat.pow 2 64 - 1)) fun _ _ => rfl

def markersSlot : Slot Draft :=
  .of "selfMarkers" true (·.selfMarkers)
    (fun ss d => { d with selfMarkers := some ss }) id reads_readTexts
    fun _ _ => rfl

def layout : Layout shape where
  slots :=
    [textSlot "programPath" "path string" (·.programPath)
      (fun s d => { d with programPath := some s }) fun _ _ => rfl,
     textSlot "binDirName" "a string" (·.binDirName) (fun s d => { d with binDirName := some s })
       fun _ _ => rfl,
     textSlot "libDirName" "a string" (·.libDirName) (fun s d => { d with libDirName := some s })
       fun _ _ => rfl,
     textSlot "nsexecBin" "a string" (·.helperName) (fun s d => { d with helperName := some s })
       fun _ _ => rfl,
     textSlot "osReleasePath" "path string" (·.releasePath)
       (fun s d => { d with releasePath := some s })
       fun _ _ => rfl,
     timeoutSlot, markersSlot,
     textSlot "selfCommand" "a string" (·.selfCommand) (fun s d => { d with selfCommand := some s })
       fun _ _ => rfl,
     textSlot "installMarker" "a string" (·.installMarker)
       (fun s d => { d with installMarker := some s })
       fun _ _ => rfl]
  fields_eq := rfl
  apart := by
    refine .cons ?_
      (.cons ?_ (.cons ?_ (.cons ?_ (.cons ?_ (.cons ?_ (.cons ?_ (.cons ?_ (.cons ?_ .nil))))))))
    all_goals simp only [List.mem_cons, List.not_mem_nil, or_false, forall_eq_or_imp, forall_eq,
      false_imp_iff, implies_true]
    repeat' apply And.intro
    all_goals exact ⟨by decide, fun _ _ => rfl, fun _ _ => rfl⟩

end Draft

def draft (c : Config) : Draft where
  programPath := c.programPath
  binDirName := c.binDirName
  libDirName := c.libDirName
  helperName := c.helperName
  releasePath := c.releasePath
  timeoutSeconds := c.timeoutSeconds
  selfMarkers := c.selfMarkers
  selfCommand := c.selfCommand
  installMarker := c.installMarker

theorem over_draft (c defaults : Config) : c.draft.over defaults = c := rfl

def members (c : Config) : Members :=
  match c.toJson with
  | .object ms => ms
  | _ => .nil

theorem accept_timeout (n : UInt64) : Draft.timeoutSlot.accept (.int n.toNat) = some n := by
  have hlt := n.toNat_lt
  have hn : (Value.int n.toNat).intWithin? 0 (Nat.pow 2 64 - 1) = some (n.toNat : Int) := by
    refine Value.intWithin?_eq_some.mpr ⟨rfl, Int.natCast_nonneg _, ?_⟩
    rw [Nat.pow_eq]
    omega
  change ((Value.int n.toNat).intWithin? 0 (Nat.pow 2 64 - 1)).map
    (fun n => UInt64.ofNat n.toNat) = some n
  rw [hn, Option.map_some, Int.toNat_natCast, UInt64.ofNat_toNat]

theorem accept_markers (ss : List String) :
    Draft.markersSlot.accept (.array (.ofList (ss.map .text))) = some ss := by
  change (Values.texts? (.ofList (ss.map .text))).map id = some ss
  rw [Values.texts?_ofList]
  rfl

theorem fill_cons {δ : Type} {shape : Shape δ} {l : Layout shape} {key : String} {v : Value}
    {ms : Members} {d e : δ} {s : Slot δ} {a : s.Content} (hslot : l.slot? key = some s)
    (hempty : s.get d = none) (ha : s.accept v = some a) (hrest : l.fill ms (s.set a d) = some e) :
    l.fill (.cons key v ms) d = some e :=
  Option.bind_eq_some_iff.mpr ⟨_, l.put_eq_some.mpr (.inr ⟨s, a, hslot, hempty, ha, rfl⟩), hrest⟩

theorem fill_members (c : Config) : Draft.layout.fill c.members {} = some c.draft :=
  fill_cons rfl rfl rfl <| fill_cons rfl rfl rfl <| fill_cons rfl rfl rfl <|
    fill_cons rfl rfl rfl <|
    fill_cons rfl rfl rfl <| fill_cons rfl rfl (accept_timeout _) <|
      fill_cons rfl rfl (accept_markers _) <|
    fill_cons rfl rfl rfl <| fill_cons rfl rfl rfl rfl

theorem isWhole_ofList_texts (ss : List String) : (Values.ofList (ss.map .text)).isWhole := by
  induction ss with
  | nil => rfl
  | cons s ss ih => simp [Values.ofList, Values.isWhole, Value.isWhole, ih]

theorem isWhole_toJson (c : Config) : c.toJson.isWhole := by
  have hlt := c.timeoutSeconds.toNat_lt
  simp [toJson, Members.ofList, Value.isWhole, Members.isWhole, isWhole_ofList_texts]
  omega

theorem depth_members (c : Config) : c.members.depth ≤ 1 := by
  simp [members, toJson, Members.ofList, Members.depth, Value.depth,
    Values.depth_of_texts (Values.texts?_ofList c.selfMarkers)]

theorem ofText_fileText (defaults c : Config) : ofText defaults c.fileText = .ok c := by
  have hspaced : (Style.indented [' ', ' ']).IsSpaced := by simp [Style.IsSpaced, isSpace]
  have hdenotes : Denotes c.fileText (.object c.members) := denotes_write hspaced c.isWhole_toJson
  have hdepth : c.members.depth < maxDepth := Nat.lt_of_le_of_lt c.depth_members (by decide)
  have hread : Draft.shape.ofText {} c.fileText = .ok c.draft :=
    (Draft.layout.ofText_object hdenotes hdepth).mpr ⟨c.fill_members, rfl⟩
  rw [ofText, hread]
  exact congrArg Except.ok (c.over_draft defaults)

end HostReach.Config
