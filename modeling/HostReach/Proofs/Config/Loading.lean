import HostReach.Proofs.Config.Codec
import HostReach.Proofs.FileTree.Access
import HostReach.Proofs.Text.Utf8

/-!
A file that holds only some members of a configuration: what it does not give comes from the
defaults. Members with other keys do not matter, whatever stands under them; one key that stands
twice, or one value of another type than its field has, is enough for nothing to be read.
-/
namespace HostReach.Config

open Json

def keys : List String :=
  ["programPath", "binDirName", "libDirName", "nsexecBin", "osReleasePath", "execTimeoutSecs",
    "selfMarkers", "selfCommand", "installMarker"]

/-- The type of the values under a key. -/
def IsValueOf (key : String) : Value → Prop
  | .text _ => key ≠ "execTimeoutSecs" ∧ key ≠ "selfMarkers"
  | .int n => key = "execTimeoutSecs" ∧ 0 ≤ n ∧ n < UInt64.size
  | .array vs => key = "selfMarkers" ∧ ∀ v ∈ vs.toList, ∃ s, v = .text s
  | _ => False

/-- The fields with some keys from another configuration. -/
def withFields (defaults : Config) (given : List String) (c : Config) : Config where
  programPath := if "programPath" ∈ given then c.programPath else defaults.programPath
  binDirName := if "binDirName" ∈ given then c.binDirName else defaults.binDirName
  libDirName := if "libDirName" ∈ given then c.libDirName else defaults.libDirName
  helperName := if "nsexecBin" ∈ given then c.helperName else defaults.helperName
  releasePath := if "osReleasePath" ∈ given then c.releasePath else defaults.releasePath
  timeoutSeconds := if "execTimeoutSecs" ∈ given then c.timeoutSeconds else defaults.timeoutSeconds
  selfMarkers := if "selfMarkers" ∈ given then c.selfMarkers else defaults.selfMarkers
  selfCommand := if "selfCommand" ∈ given then c.selfCommand else defaults.selfCommand
  installMarker := if "installMarker" ∈ given then c.installMarker else defaults.installMarker

/-- Members that give some fields of a configuration: the values that are written for it stand under
their keys, each once, and nothing under its other keys. Other keys need only be texts. -/
structure Gives (ms : List (Option String × Tree)) (given : List String) (c : Config) : Prop where
  named : ∀ m ∈ ms, m.1 ≠ none
  once : ∀ key ∈ given, ∀ x, (key, x) ∈ c.members.toList → ∃ v, underKey (some key) ms = [v] ∧
    v.value? = some x
  absent : ∀ key ∈ keys, key ∉ given → underKey (some key) ms = []

/-- A key that is no text, one of a configuration's that stands twice, or a value under one of these
that is not of its type. -/
def Faulty (ms : List (Option String × Tree)) : Prop :=
  (∃ m ∈ ms, m.1 = none) ∨
    ∃ key ∈ keys, 2 ≤ (underKey (some key) ms).length ∨
      ∃ v ∈ underKey (some key) ms, ∀ x, v.value? = some x → ¬IsValueOf key x

variable {c defaults : Config} {given : List String} {d : Document}

theorem keys_eq : Draft.layout.slots.map Slot.key = keys := rfl

theorem key_mem {s : Slot Draft} (hs : s ∈ Draft.layout.slots) : s.key ∈ keys :=
  keys_eq ▸ List.mem_map_of_mem hs

theorem exists_slot {key : String} (hkey : key ∈ keys) : ∃ s ∈ Draft.layout.slots, s.key = key := by
  rw [← keys_eq] at hkey
  exact List.mem_map.mp hkey

theorem get_empty : ∀ s ∈ Draft.layout.slots, s.get {} = none := by
  simp only [Draft.layout, List.forall_mem_cons]
  exact ⟨rfl, rfl, rfl, rfl, rfl, rfl, rfl, rfl, rfl, List.forall_mem_nil _⟩

theorem isSome_get_draft (c : Config) : ∀ s ∈ Draft.layout.slots, (s.get c.draft).isSome := by
  simp only [Draft.layout, List.forall_mem_cons]
  exact ⟨rfl, rfl, rfl, rfl, rfl, rfl, rfl, rfl, rfl, List.forall_mem_nil _⟩

theorem isSome_accept_text {key expected : String} {get : Draft → Option String}
    {set : String → Draft → Draft} {get_set : ∀ s d, get (set s d) = some s}
    (hkey : key ≠ "execTimeoutSecs" ∧ key ≠ "selfMarkers") (x : Value) :
    ((Draft.textSlot key expected get set get_set).accept x).isSome ↔ IsValueOf key x := by
  cases x with
  | text s => exact iff_of_true rfl hkey
  | int n => exact iff_of_false Bool.false_ne_true fun h => hkey.1 h.1
  | array vs => exact iff_of_false Bool.false_ne_true fun h => hkey.2 h.1
  | _ => exact iff_of_false Bool.false_ne_true id

theorem isSome_accept_timeout (x : Value) : (Draft.timeoutSlot.accept x).isSome ↔
    IsValueOf "execTimeoutSecs" x := by
  have haccept : (Draft.timeoutSlot.accept x).isSome = (x.intWithin? 0 (Nat.pow 2 64 - 1)).isSome :=
    Option.isSome_map
  rw [haccept, Option.isSome_iff_exists]
  simp only [Value.intWithin?_eq_some, Nat.pow_eq]
  cases x with
  | int n =>
    simp only [Value.int.injEq, exists_eq_left', IsValueOf, UInt64.size, true_and]
    omega
  | _ => simp [IsValueOf]

theorem isSome_accept_markers (x : Value) : (Draft.markersSlot.accept x).isSome ↔
    IsValueOf "selfMarkers" x := by
  have haccept : (Draft.markersSlot.accept x).isSome = x.texts?.isSome := Option.isSome_map
  rw [haccept]
  cases x with
  | array vs => simp only [Value.texts?, Values.isSome_texts?, IsValueOf, true_and]
  | _ => simp [Value.texts?, IsValueOf]

theorem isSome_accept_iff : ∀ s ∈ Draft.layout.slots, ∀ x, (s.accept x).isSome ↔
    IsValueOf s.key x := by
  simp only [Draft.layout, List.forall_mem_cons]
  exact ⟨isSome_accept_text (by decide), isSome_accept_text (by decide),
    isSome_accept_text (by decide), isSome_accept_text (by decide), isSome_accept_text (by decide),
    isSome_accept_timeout, isSome_accept_markers,
    isSome_accept_text (by decide), isSome_accept_text (by decide), List.forall_mem_nil _⟩

theorem depth_le_of_isValueOf {key : String} {x : Value} (h : IsValueOf key x) : x.depth ≤ 1 := by
  cases x with
  | array vs =>
    obtain ⟨ss, hss⟩ := Option.isSome_iff_exists.mp (Values.isSome_texts?.mpr h.2)
    simp [Value.depth, Values.depth_of_texts hss]
  | object ms => exact h.elim
  | _ => exact Nat.zero_le 1

theorem exists_written (c : Config) {s : Slot Draft} (hs : s ∈ Draft.layout.slots) :
    ∃ x, (s.key, x) ∈ c.members.toList ∧ s.accept x = s.get c.draft := by
  have htakes := Draft.layout.takes_of_fill c.fill_members hs
  rw [get_empty s hs, takes_none] at htakes
  rcases htakes with ⟨-, hnone⟩ | ⟨x, a, hx, ha, hget⟩
  · have hsome := c.isSome_get_draft s hs
    rw [hnone] at hsome
    cases hsome
  · refine ⟨x, ?_, ha.trans hget.symm⟩
    rw [← mem_underKey, underKey_toList, hx]
    exact List.mem_singleton_self x

theorem over_eq {e : Draft}
    (h : ∀ s ∈ Draft.layout.slots, s.get e = if s.key ∈ given then s.get c.draft else none) :
    e.over defaults = defaults.withFields given c := by
  have hfield {β : Type} {key : String} {o : Option β} {a b : β}
    (ho : o = if key ∈ given then some a else none) :
      o.getD b = if key ∈ given then a else b := by
    rw [ho]
    split <;> rfl
  simp only [Draft.layout, List.forall_mem_cons] at h
  obtain ⟨hprogram, hbin, hlib, hhelper, hrelease, htimeout, hmarkers, hself, hinstall, -⟩ := h
  simp only [Draft.over, withFields, Config.mk.injEq]
  exact ⟨hfield hprogram, hfield hbin, hfield hlib, hfield hhelper, hfield hrelease,
    hfield htimeout, hfield hmarkers, hfield hself, hfield hinstall⟩

theorem takes_value {s : Slot Draft} (hs : s ∈ Draft.layout.slots) {v : Tree} {x : Value}
    {a : s.Content} (hx : v.value? = some x) (ha : s.accept x = some a) :
    Takes (s.take (maxDepth - 1)) none [v] (some a) := by
  have hvalue := (isSome_accept_iff s hs x).mp (Option.isSome_of_eq_some ha)
  have hdepth : x.depth ≤ maxDepth - 1 := Nat.le_trans (depth_le_of_isValueOf hvalue) (by decide)
  exact takes_none.mpr (.inr ⟨v, a, rfl, (s.take_of_value hx hdepth).trans ha, rfl⟩)

theorem missing?_eq_none (e : Draft) : Draft.shape.missing? e = none := by
  simp [Shape.missing?, Draft.shape, Draft.textField, Field.of]

theorem ofText_object_eq_ok (hobject : d.tree.isObject = true) :
    ofText defaults d.text = .ok c ↔
      ∃ ms : List (String × Tree), d.tree.named = ms.map (Prod.map some id) ∧
        ∃ e, Draft.layout.fillWith (·.take (maxDepth - 1)) ms {} = some e ∧
        e.over defaults = c := by
  unfold ofText
  simp only [map_eq_ok, Draft.layout.ofText_named d hobject, missing?_eq_none, and_true]
  constructor
  · rintro ⟨e, ⟨ms, hms, hfill⟩, hover⟩
    exact ⟨ms, hms, e, hfill, hover⟩
  · rintro ⟨ms, hms, e, hfill, hover⟩
    exact ⟨e, ⟨ms, hms, hfill⟩, hover⟩

theorem ofText_of_gives (hobject : d.tree.isObject = true) (h : Gives d.tree.named given c) :
    ofText defaults d.text = .ok (defaults.withFields given c) := by
  obtain ⟨ms, hms⟩ := exists_map_some h.named
  have htakes : ∀ s ∈ Draft.layout.slots,
      Takes (s.take (maxDepth - 1)) (s.get {}) (underKey s.key ms)
      (if s.key ∈ given then s.get c.draft else none) := by
    intro s hs
    rw [get_empty s hs, ← underKey_map, ← hms]
    by_cases hgiven : s.key ∈ given
    · obtain ⟨x, hx, haccept⟩ := c.exists_written hs
      obtain ⟨v, hv, hvalue⟩ := h.once s.key hgiven x hx
      obtain ⟨a, ha⟩ := Option.isSome_iff_exists.mp (c.isSome_get_draft s hs)
      rw [if_pos hgiven, hv, ha]
      exact takes_value hs hvalue (haccept.trans ha)
    · rw [if_neg hgiven, h.absent s.key (key_mem hs) hgiven]
      rfl
  obtain ⟨e, hfill⟩ := Layout.exists_fillWith fun s hs => ⟨_, htakes s hs⟩
  have hget (s : Slot Draft) (hs : s ∈ Draft.layout.slots) :=
    (Layout.takes_of_fillWith hfill hs).unique (htakes s hs)
  exact (ofText_object_eq_ok hobject).mpr ⟨ms, hms, e, hfill, over_eq hget⟩

theorem not_faulty_of_ofText (hobject : d.tree.isObject = true)
    (h : ofText defaults d.text = .ok c) :
    ¬Faulty d.tree.named := by
  obtain ⟨ms, hms, e, hfill, -⟩ := (ofText_object_eq_ok hobject).mp h
  rw [hms]
  rintro (⟨m, hm, hnone⟩ | ⟨key, hkey, hfaulty⟩)
  · obtain ⟨m, -, rfl⟩ := List.mem_map.mp hm
    cases hnone
  · obtain ⟨s, hs, rfl⟩ := exists_slot hkey
    have htakes := Layout.takes_of_fillWith hfill hs
    rw [get_empty s hs, takes_none] at htakes
    rw [underKey_map] at hfaulty
    rcases htakes with ⟨hnil, -⟩ | ⟨v, a, hv, ha, -⟩
    · simp [hnil] at hfaulty
    · obtain ⟨x, hx, -, haccept⟩ := Slot.take_eq_some.mp ha
      have hvalue : ∀ x, v.value? = some x → ¬IsValueOf s.key x := by simpa [hv] using hfaulty
      exact hvalue x hx ((isSome_accept_iff s hs x).mp (Option.isSome_of_eq_some haccept))

theorem exists_ofText_of_not_faulty (defaults : Config) (hobject : d.tree.isObject = true)
    (h : ¬Faulty d.tree.named) :
    ∃ c, ofText defaults d.text = .ok c := by
  rw [Faulty, not_or] at h
  obtain ⟨ms, hms⟩ := exists_map_some fun m hm hnone => h.1 ⟨m, hm, hnone⟩
  obtain ⟨e, hfill⟩ : ∃ e, Draft.layout.fillWith (·.take (maxDepth - 1)) ms {} = some e := by
    refine Layout.exists_fillWith fun s hs => ?_
    have hsound := not_and.mp (not_exists.mp h.2 s.key) (key_mem hs)
    rw [hms, underKey_map, not_or] at hsound
    rw [get_empty s hs]
    rcases hvs : underKey s.key ms with _ | ⟨v, _ | ⟨w, vs⟩⟩
    · exact ⟨none, rfl⟩
    · obtain ⟨x, hx, hvalue⟩ : ∃ x, v.value? = some x ∧ IsValueOf s.key x := by
        simpa [hvs] using hsound.2
      obtain ⟨a, ha⟩ := Option.isSome_iff_exists.mp ((isSome_accept_iff s hs x).mpr hvalue)
      exact ⟨some a, takes_value hs hx ha⟩
    · simp [hvs] at hsound
  exact ⟨e.over defaults, (ofText_object_eq_ok hobject).mpr ⟨ms, hms, e, hfill, rfl⟩⟩

theorem load_of_contents {t : FileTree} {path text : String}
    (h : t.contents path = .ok (Utf8.encode text)) :
    load defaults t path = (ofText defaults text).mapError (.malformed text) := by
  obtain ⟨p, hfind⟩ := FileTree.contents_eq_ok_iff.mp h
  have hpresent : t.isPresent path = true := FileTree.isPresent_iff.mpr ⟨p, _, hfind⟩
  rw [load, hpresent, h]
  simp only [Bool.not_true, Bool.false_eq_true, if_false, Utf8.decode?_encode]

/-- A file with an object in it gives the fields of a configuration that its members give, and the
others are the defaults, those of the program if it has no others, however it is laid out and
whatever else it holds. Nothing is loaded if a key stands twice, or a value is not of the type of
its key, and there is no other object that nothing is loaded from. -/
theorem load_partial (defaults : Config) (t : FileTree) (path : String) (d : Document)
    (hobject : d.tree.isObject = true) (hfile : t.contents path = .ok (Utf8.encode d.text)) :
    (∀ given c, Gives d.tree.named given c →
      load defaults t path = .ok (defaults.withFields given c)) ∧
    (∀ directory given c, Gives d.tree.named given c → load (ofProgramPath directory) t path =
      .ok (withFields ⟨directory, "bin", "lib", "nsexec", "/etc/os-release", 60,
        ["chaos_killprocess", "chaos_stopprocess"], "blade", "/chaosblade"⟩ given c)) ∧
    (Faulty d.tree.named → ∃ fault, load defaults t path = .error (.malformed d.text fault)) ∧
    (¬Faulty d.tree.named → ∃ c, load defaults t path = .ok c) := by
  have hgives (defaults : Config) (given : List String) (c : Config)
      (h : Gives d.tree.named given c) :
      load defaults t path = .ok (defaults.withFields given c) := by
    rw [load_of_contents hfile, ofText_of_gives hobject h]
    rfl
  refine ⟨hgives defaults, fun directory => hgives (ofProgramPath directory),
    fun h => ?_, fun h => ?_⟩
  · rw [load_of_contents hfile]
    cases hread : ofText defaults d.text with
    | ok c => exact absurd h (not_faulty_of_ofText hobject hread)
    | error fault => exact ⟨fault, rfl⟩
  · obtain ⟨c, hread⟩ := exists_ofText_of_not_faulty defaults hobject h
    rw [load_of_contents hfile, hread]
    exact ⟨c, rfl⟩

/-- A timeout and a directory, not in the order they are written in, behind half a surrogate pair
under an unknown key; the timeout twice; `null` for the directory. -/
theorem load_partial_two_fields :
    let half : Glyph := .unit ⟨⟨'d', 13, rfl⟩, ⟨'8', 8, rfl⟩, ⟨'0', 0, rfl⟩, ⟨'0', 0, rfl⟩⟩
    let thirty : Tree := .number ⟨false, ⟨'3', ['0'], List.all_eq_true.mp rfl⟩, none, none, nofun⟩
    let document (key : String) (v : Tree) : Document :=
      ⟨⟨['\t'], List.all_eq_true.mp rfl⟩, .object .none
        (.cons (Literal.verbatim "x") .none .none (.text [half]) .none .none
          (.cons (Literal.verbatim "execTimeoutSecs") .none .none thirty .none .none
            (.last (Literal.verbatim key) .none .none v .none))), .none⟩
    let tree (d : Document) : FileTree := .ofList [([['c']], .file (Utf8.encode d.text))]
    let loaded (d : Document) := load (ofProgramPath "/opt/x") (tree d) "c"
    let twoFields := document "programPath" (.text (Literal.verbatim "/opt/y"))
    let twice := document "execTimeoutSecs" thirty
    let withNull := document "programPath" .null
    loaded twoFields = .ok ⟨"/opt/y", "bin", "lib", "nsexec", "/etc/os-release", 30,
        ["chaos_killprocess", "chaos_stopprocess"], "blade", "/chaosblade"⟩ ∧
      (∃ fault, loaded twice = .error (.malformed twice.text fault)) ∧
      ∃ fault, loaded withNull = .error (.malformed withNull.text fault) := by
  intro half thirty document tree loaded twoFields twice withNull
  have hnamed (key : String) (hkey : Literal.value? (Literal.verbatim key) = some key) (v : Tree) :
      (document key v).tree.named =
        [(some "x", .text [half]), (some "execTimeoutSecs", thirty), (some key, v)] := by
    have hx : Literal.value? (Literal.verbatim "x") = some "x" := by decide +kernel
    have htimeout : Literal.value? (Literal.verbatim "execTimeoutSecs") =
        some "execTimeoutSecs" := by decide +kernel
    rw [← hkey, ← hx, ← htimeout]
    rfl
  have htwo : twoFields.tree.named = _ :=
    hnamed "programPath" (by decide +kernel) (.text (Literal.verbatim "/opt/y"))
  have htwice : twice.tree.named = _ := hnamed "execTimeoutSecs" (by decide +kernel) thirty
  have hnull : withNull.tree.named = _ := hnamed "programPath" (by decide +kernel) .null
  refine ⟨?_, ?_, ?_⟩
  · obtain ⟨-, hown, -⟩ :=
      load_partial (ofProgramPath "/opt/x") (tree twoFields) "c" twoFields rfl (by decide +kernel)
    refine hown "/opt/x" ["programPath", "execTimeoutSecs"]
      { programPath := "/opt/y", timeoutSeconds := 30 } ⟨?_, ?_, ?_⟩
    · simp [htwo]
    · have hthirty : thirty.value? = some (.int 30) := by decide +kernel
      have hpath : (Tree.text (Literal.verbatim "/opt/y")).value? = some (.text "/opt/y") := by
        decide +kernel
      simp [htwo, underKey, members, toJson, Members.ofList, Members.toList, hthirty, hpath]
    · simp [htwo, underKey, keys]
  · obtain ⟨-, -, hrefused, -⟩ :=
      load_partial (ofProgramPath "/opt/x") (tree twice) "c" twice rfl (by decide +kernel)
    refine hrefused (.inr ?_)
    exact ⟨"execTimeoutSecs", by decide, .inl (by simp [htwice, underKey])⟩
  · obtain ⟨-, -, hrefused, -⟩ :=
      load_partial (ofProgramPath "/opt/x") (tree withNull) "c" withNull rfl (by decide +kernel)
    refine hrefused (.inr ?_)
    refine ⟨"programPath", by decide, .inr ⟨.null, by simp [hnull, underKey], fun x hx => ?_⟩⟩
    cases hx
    exact id

end HostReach.Config
