import HostReach.Proofs.Config.FailedSave
import HostReach.Proofs.Config.Loading
import HostReach.Proofs.FileTree.Directories

/-!
A configuration that is saved is loaded again, from a path that ends in its file name and where no
directory is in the way. Nothing is changed but the file there and the directories above it, and
whatever the save comes to, that file is the old one or the new one as a whole.
-/
namespace HostReach.Config

open FileTree

/-- A path that a configuration can be saved to: it leads down by names only and ends in the last
one, of which more than a dot is left without its extension; the directories above are there or
nothing is in their way; neither where it leads nor beside it, where the file is written first, is a
directory; and the system takes both as paths. -/
structure Savable (t : FileTree) (path : String) : Prop where
  plain : Path.Component.up ∉ Path.components path
  named : ∃ name, Path.fileName? path = some name ∧ name <:+ path.toList ∧ Path.stem name ≠ ['.']
  start : t.kind? (t.start path) = some .directory
  clear : ∀ q, q <+: (t.place path).dropLast → t.kind? q = none ∨ t.kind? q = some .directory
  free : t.isDirectory path = false ∧ t.isDirectory (tempPath path) = false
  taken : ∀ text ∈ [path, tempPath path], refusal? text = none ∧ Fits (names (pieces text))

/-- What is different in a tree after a configuration has been saved in another one. -/
structure Saved (c : Config) (t u : FileTree) (path : String) : Prop where
  loads (defaults : Config) : load defaults u path = .ok c
  noTempFile : u.isPresent (tempPath path) = false
  current : u.current = t.current
  kind? (q : Place) : u.kind? q =
    if q = t.place path then some (.file (Utf8.encode c.fileText))
    else if q = t.place (tempPath path) then none
    else if q <+: t.place path then some .directory
    else t.kind? q

/-- The file at a path is the new one after a save that succeeds, and the same as before after one
that fails. -/
def IsWhole (c : Config) (t : FileTree) (path : String) : FileTree × Except FileFault Unit → Prop
  | (u, .ok ()) => u.contents path = .ok (Utf8.encode c.fileText)
  | (u, .error _) => (u.contents path).toOption = (t.contents path).toOption

variable {storing : Storing} {c c' : Config} {t u v : FileTree} {path : String}
    {p : Place} {name : Name}

structure Site (t : FileTree) (path : String) (p : Place) (name : Name) : Prop where
  start : t.kind? (t.start path) = some .directory
  descends : Descends t (t.start path) (Path.ancestors path).tail p
  leads : LeadsTo t path p name
  slash : endsInSlash path = false
  tempLeads : LeadsTo t (tempPath path) p (tempName name)
  tempSlash : endsInSlash (tempPath path) = false
  clear : ∀ q, q <+: p → t.kind? q = none ∨ t.kind? q = some .directory
  free : t.kind? (p ++ [name]) ≠ some .directory
  tempFree : t.kind? (p ++ [tempName name]) ≠ some .directory

theorem Savable.exists_site (h : Savable t path) : ∃ p name, Site t path p name := by
  obtain ⟨name, hname, hends, hstem⟩ := h.named
  obtain ⟨hrefusal, hfits⟩ := h.taken path (by simp)
  obtain ⟨htempRefusal, htempFits⟩ := h.taken (tempPath path) (by simp)
  obtain ⟨hfree, htempFree⟩ := h.free
  have hplain := isPlain_iff.mpr h.plain
  obtain ⟨base, trail, hsplits⟩ := exists_splits_of_fileName? hplain hname
  obtain rfl := hsplits.trail_eq_nil hends
  have htemp : (tempPath path).toList = base ++ tempName name :=
    (toList_withExtension hsplits (hsplits.ne_up hplain)).resolve_right fun hdot => hstem hdot.1
  have htempSplits : Splits (tempPath path).toList base (tempName name) [] :=
    htemp ▸ splits_tempName hsplits
  have hstart : t.start (tempPath path) = t.start path := by
    rw [htempSplits.start_eq, hsplits.start_eq]
  have hbase := hsplits.isPlain_base hplain
  have hfitsBase : Fits (names (cut base)) := by
    rw [hsplits.pieces_eq, names_append, fits_append] at hfits
    exact hfits.1
  have hleads := hsplits.leadsTo t hrefusal hplain hfits
  have htempLeads :=
    htempSplits.leadsTo t htempRefusal (htempSplits.isPlain hbase (tempName_ne_up name)) htempFits
  rw [hstart] at htempLeads
  rw [← Bool.not_eq_true, hleads.isDirectory_iff] at hfree
  rw [← Bool.not_eq_true, htempLeads.isDirectory_iff] at htempFree
  have hclear := h.clear
  rw [hleads.place, List.dropLast_concat] at hclear
  exact ⟨_, name, h.start, descends_ancestors t hsplits hrefusal hbase hfitsBase, hleads,
    hsplits.endsInSlash_eq_false, htempLeads, htempSplits.endsInSlash_eq_false, hclear,
    hfree, htempFree⟩

theorem place_ne (p : Place) (name : Name) : p ++ [tempName name] ≠ p ++ [name] := by
  simpa using tempName_ne name

theorem Site.saved (h : Site t path p name) (hcurrent : u.current = t.current)
    (hkind : ∀ q, u.kind? q =
      if q = p ++ [name] then some (.file (Utf8.encode c.fileText))
      else if q = p ++ [tempName name] then none
      else if q <+: p ++ [name] then some .directory
      else t.kind? q) : Saved c t u path := by
  have hfile : u.kind? (p ++ [name]) = some (.file (Utf8.encode c.fileText)) := by
    rw [hkind, if_pos rfl]
  have hnone : u.kind? (p ++ [tempName name]) = none := by
    rw [hkind, if_neg (place_ne p name), if_pos rfl]
  have hleads := h.leads.of_current hcurrent
  refine ⟨fun defaults => ?_, (h.tempLeads.of_current hcurrent).isPresent_eq_false hnone,
    hcurrent, ?_⟩
  · rw [load_of_contents (hleads.contents h.slash hfile), ofText_fileText]
    rfl
  · rw [h.leads.place, h.tempLeads.place]
    exact hkind

theorem Site.save (h : Site t path p name) (c : Config) : ∃ u, c.save t path = (u, .ok ()) ∧
    Saved c t u path := by
  obtain ⟨u, hmake, hopens⟩ := makeDirectories_of_descends h.descends h.start h.clear
  obtain ⟨w, v, hwrite, hrename, hcurrent, hkind⟩ :=
    exists_replaced (h.tempLeads.of_current hopens.current) h.tempSlash
      (h.leads.of_current hopens.current) h.slash
      (tempName_ne name) hopens.directory (by rw [hopens.kind?_below]; exact h.tempFree)
      (by rw [hopens.kind?_below]; exact h.free) (Utf8.encode c.fileText)
  refine ⟨v, ?_, h.saved (hcurrent.trans hopens.current) fun q => ?_⟩
  · simp [Config.save, saveWith, hmake, Storing.written, hwrite, Storing.fault?, hrename]
  · rw [hkind, hopens.kind?]
    by_cases hq : q = p ++ [name]
    · simp [hq]
    · simp [hq, List.prefix_concat_iff]

theorem Site.of_saved (h : Site t path p name) (hsaved : Saved c t u path) :
    Site u path p name := by
  have hkind := hsaved.kind?
  rw [h.leads.place, h.tempLeads.place] at hkind
  have hstart : u.start path = t.start path := start_of_current hsaved.current path
  -- Whatever stood above, there are directories now.
  have hdirectory (q : Place) (hq : q <+: p) : u.kind? q = some .directory := by
    have hne (x : Name) : q ≠ p ++ [x] := fun heq => not_below_itself p x (heq ▸ hq)
    rw [hkind, if_neg (hne _), if_neg (hne _), if_pos (hq.trans (List.prefix_append _ _))]
  obtain ⟨ups, -, -, -, hp⟩ := h.leads.pieces
  have hbelow : t.start path <+: p := hp ▸ List.prefix_append _ _
  exact
    { start := hstart ▸ hdirectory _ hbelow
      descends := hstart ▸ h.descends.of_current hsaved.current
      leads := h.leads.of_current hsaved.current
      slash := h.slash
      tempLeads := h.tempLeads.of_current hsaved.current
      tempSlash := h.tempSlash
      clear := fun q hq => .inr (hdirectory q hq)
      free := by simp [hkind]
      tempFree := by simp [hkind] }

theorem Saved.trans (h : Saved c t u path) (h' : Saved c' u v path) : Saved c' t v path where
  loads := h'.loads
  noTempFile := h'.noTempFile
  current := h'.current.trans h.current
  kind? q := by
    rw [h'.kind?, h.kind?, place_of_current h.current, place_of_current h.current]
    by_cases hq : q = t.place path
    · simp [hq]
    · by_cases htemp : q = t.place (tempPath path)
      · simp [htemp]
      · by_cases hpart : q <+: t.place path <;> simp [hq, htemp, hpart]

theorem toOption_contents_eq (hplain : IsPlain (pieces path)) (hcurrent : u.current = t.current)
    (h : ∀ content, u.kind? (t.place path) = some (.file content) ↔
      t.kind? (t.place path) = some (.file content)) :
    (u.contents path).toOption = (t.contents path).toOption := by
  have hiff (content : List UInt8) : u.contents path = .ok content ↔
      t.contents path = .ok content := by
    rw [contents_eq_ok hplain, contents_eq_ok hplain, place_of_current hcurrent, h]
  cases hu : u.contents path with
  | ok content => rw [(hiff content).mp hu]
  | error e =>
    cases ht : t.contents path with
    | ok content =>
      rw [(hiff content).mpr ht] at hu
      cases hu
    | error e' => rfl

theorem target_tempPath_ne (hplain : IsPlain (pieces path)) {q : Place} {o : Option Node}
    (h : t.target (tempPath path) = .ok (some (q, o))) : q ≠ t.place path := by
  obtain ⟨-, ups, x, -, -, hpieces, hstep, -⟩ := target_eq_ok.mp h
  by_cases hnames : names (cut path.toList) = []
  · -- A path without a name is kept as it is, and leads to no entry.
    have htemp : tempPath path = path := by
      rw [tempPath, Path.withExtension, fileName?_of_names_eq_nil hnames]
    rw [htemp, pieces_eq_cut] at hpieces
    rw [hpieces, names_append, names_cons hstep.1] at hnames
    simp at hnames
  · obtain ⟨base, name, trail, hsplits⟩ := exists_splits hnames
    rcases toList_withExtension hsplits (hsplits.ne_up hplain) with htemp | ⟨-, -, htemp⟩
    · have htempSplits : Splits (tempPath path).toList base (tempName name) [] :=
        htemp ▸ splits_tempName hsplits
      have htempPlain := htempSplits.isPlain (hsplits.isPlain_base hplain) (tempName_ne_up name)
      obtain ⟨p, y, hleads, rfl⟩ := exists_leadsTo htempPlain h
      rw [← hleads.place, htempSplits.place_eq, hsplits.place_eq, htempSplits.start_eq,
        hsplits.start_eq]
      exact place_ne _ name
    · -- Nothing is written to a path that goes up last.
      have hup : pieces (tempPath path) = cut base ++ [['.', '.']] := by
        rw [pieces_eq_cut, tempPath, htemp, hsplits.isBase.cut_append]
        rfl
      rw [hup] at hpieces
      have hx := (List.append_inj' hpieces rfl).2
      simp only [List.cons.injEq, and_true] at hx
      exact absurd hx.symm hstep.2.1

theorem isWhole_saveWith (hplain : IsPlain (pieces path)) (storing : Storing) (c : Config)
    (t : FileTree) :
    IsWhole c t path (saveWith storing c t path) := by
  have hprepared := spares_prepared t path
  have hends := ends_saveWith storing c t path
  -- The new file is at another place as long as it has not been moved.
  have hwritten {u : FileTree}
    (hwrite : (prepared t path).writeFile (tempPath path) (stored storing c) = .ok u) :
      (u.contents path).toOption = (t.contents path).toOption := by
    obtain ⟨p, x, rfl, ⟨o, htarget⟩, hdirectory, hold, -⟩ := writeFile_eq_ok hwrite
    have hne := target_tempPath_ne hplain htarget
    rw [place_of_current hprepared.current] at hne
    have hput := spares_put_file hdirectory hold (stored storing c)
    have hspares := (hprepared.mono fun _ h => h.elim).trans hput
    exact toOption_contents_eq hplain hspares.current (hspares.file _ (Ne.symm hne))
  generalize saveWith storing c t path = result at hends
  cases hends with
  | noDirectory e => exact toOption_contents_eq hplain hprepared.current (hprepared.file _ id)
  | noTempFile e => exact toOption_contents_eq hplain hprepared.current (hprepared.file _ id)
  | notStored u f hwrite hfault => exact hwritten hwrite
  | notRenamed u e hwrite hfault => exact hwritten hwrite
  | saved u v hwrite hfault hrename =>
    obtain ⟨_, _, -, -, -, -, hfind⟩ := writeFile_eq_ok hwrite
    obtain ⟨_, content, q, o, hfind', htarget, hslash, hcurrent, hkind⟩ := renameFile_eq_ok hrename
    rw [hfind'] at hfind
    cases hfind
    obtain ⟨p, x, hleads, rfl⟩ := exists_leadsTo hplain htarget
    have hcontents := (hleads.of_current hcurrent).contents hslash (by rw [hkind, if_pos rfl])
    rw [IsWhole, hcontents, stored, Storing.written_of_fault? hfault]

theorem savable_below_directory : Savable besideDirectory "d/e/f.json" where
  plain := by decide +kernel
  named := ⟨"f.json".toList, by decide +kernel⟩
  start := by decide +kernel
  clear q hq := by
    have hplace : (besideDirectory.place "d/e/f.json").dropLast = [['d'], ['e']] := by
      decide +kernel
    rw [hplace] at hq
    simp only [List.prefix_cons_iff, List.prefix_nil] at hq
    rcases hq with rfl | ⟨q, rfl, rfl | ⟨q, rfl, rfl⟩⟩ <;> decide +kernel
  free := by decide +kernel
  taken := by decide +kernel

end HostReach.Config
