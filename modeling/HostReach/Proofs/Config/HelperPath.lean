import HostReach.Config.Basic
import HostReach.Proofs.Path.Join

/-!
Where the helper is looked for. It stands in the directory of binaries, which is not added to a
program path that ends with it already. Whether it does is decided by the text of the directory's
name, so that a name that is spelled with slashes or dots, or has several components, is added once
more.
-/
namespace HostReach

open HostReach.Path

/-- A relative path of names only, in whatever spelling. -/
def Path.IsDownward (path : String) : Prop :=
  components path ≠ [] ∧ ∀ k ∈ components path, ∃ s, k = .name s

/-- The text of the path is its one component. -/
def Path.IsOneName (path : String) : Prop := components path = [.name path.toList]

instance (path : String) : Decidable (Path.IsOneName path) := inferInstanceAs (Decidable (_ = _))

theorem Path.IsDownward.isAbsolute {path : String} (h : IsDownward path) :
    isAbsolute path = false := by
  rw [← Bool.not_eq_true]
  intro habsolute
  have hhead : path.toList.head? = some '/' := by simpa [Path.isAbsolute] using habsolute
  have hroot : .root ∈ components path := by
    simp [components, componentList_eq_append, leading, hhead]
  obtain ⟨s, hs⟩ := h.2 _ hroot
  cases hs

theorem Path.IsDownward.inner_eq {path : String} (h : IsDownward path) :
    inner path.toList = components path := by
  have hparts := componentList_eq_append path.toList
  have hleading : leading path.toList = [] := by
    refine List.eq_nil_iff_forall_not_mem.mpr fun k hk => ?_
    obtain ⟨s, rfl⟩ := h.2 k (by rw [components, hparts]; exact List.mem_append_left _ hk)
    rcases eq_of_mem_leading hk with hname | hname <;> cases hname
  rw [components, hparts, hleading, List.nil_append]

namespace Config

variable {c : Config}

def EndsInBin (c : Config) : Prop := components c.binDirName <:+ components c.programPath

instance (c : Config) : Decidable c.EndsInBin := inferInstanceAs (Decidable (_ <:+ _))

def helperInBin (c : Config) : String :=
  join (if c.EndsInBin then c.programPath else c.binDir) c.helperName

theorem isInBin_iff : c.isInBin = true ↔ c.EndsInBin ∧ IsOneName c.binDirName := by
  have hlast : c.isInBin = true ↔
      (components c.programPath).getLast? = some (.name c.binDirName.toList) := by
    unfold isInBin fileName?
    rw [beq_iff_eq]
    split
    · rename_i s hs
      simp [hs]
    · rename_i hnone
      simp only [reduceCtorEq, false_iff]
      exact hnone _
  rw [hlast, EndsInBin]
  constructor
  · intro h
    obtain ⟨above, habove⟩ := List.getLast?_eq_some_iff.mp h
    have hmem : .name c.binDirName.toList ∈ components c.programPath := by simp [habove]
    have hname : IsOneName c.binDirName := componentList_of_name_mem hmem
    rw [IsOneName] at hname
    exact ⟨hname ▸ habove ▸ List.suffix_append above _, hname⟩
  · rintro ⟨⟨above, habove⟩, hname⟩
    rw [IsOneName] at hname
    rw [← habove, hname, List.getLast?_concat]

theorem components_binDir (h : IsDownward c.binDirName) :
    components c.binDir = components c.programPath ++ components c.binDirName := by
  by_cases hprogram : c.programPath = ""
  · have hjoin : c.binDir = c.binDirName := by simp [binDir, join, hprogram, h.isAbsolute]
    rw [hjoin, components_eq_nil.mpr hprogram, List.nil_append]
  · rw [binDir, components_join hprogram h.isAbsolute, h.inner_eq]

theorem binDir_ne_empty (h : IsDownward c.binDirName) : c.binDir ≠ "" := by
  rw [ne_eq, ← components_eq_nil, components_binDir h, List.append_eq_nil_iff]
  exact fun hnil => h.1 hnil.2

theorem programPath_ne_empty (h : IsDownward c.binDirName) (hends : c.EndsInBin) :
    c.programPath ≠ "" := by
  intro hempty
  rw [EndsInBin, components_eq_nil.mpr hempty, List.suffix_nil] at hends
  exact h.1 hends

theorem components_helperPath (h : IsDownward c.binDirName)
    (hrelative : isAbsolute c.helperName = false) :
    components c.helperPath = components c.programPath ++
      (if c.EndsInBin ∧ IsOneName c.binDirName then [] else components c.binDirName) ++
        inner c.helperName.toList := by
  cases hin : c.isInBin with
  | true =>
    have hends := isInBin_iff.mp hin
    simp only [helperPath, hin, if_true]
    rw [components_join (programPath_ne_empty h hends.1) hrelative, if_pos hends, List.append_nil]
  | false =>
    have hends : ¬(c.EndsInBin ∧ IsOneName c.binDirName) := by
      rw [← isInBin_iff, hin]
      exact Bool.false_ne_true
    simp only [helperPath, hin, Bool.false_eq_true, if_false]
    rw [components_join (binDir_ne_empty h) hrelative, components_binDir h, if_neg hends]

theorem components_helperInBin (h : IsDownward c.binDirName)
    (hrelative : isAbsolute c.helperName = false) :
    components c.helperInBin = components c.programPath ++
      (if c.EndsInBin then [] else components c.binDirName) ++ inner c.helperName.toList := by
  unfold helperInBin
  by_cases hends : c.EndsInBin
  · rw [if_pos hends, if_pos hends, components_join (programPath_ne_empty h hends) hrelative,
      List.append_nil]
  · rw [if_neg hends, if_neg hends, components_join (binDir_ne_empty h) hrelative,
      components_binDir h]

theorem same_iff {a b : String} : same a b = true ↔ components a = components b := beq_iff_eq

theorem helperPath_of_isAbsolute (h : isAbsolute c.helperName = true) :
    c.helperPath = c.helperName :=
  join_of_isAbsolute h _

theorem helperInBin_of_isAbsolute (h : isAbsolute c.helperName = true) :
    c.helperInBin = c.helperName :=
  join_of_isAbsolute h _

theorem append_ite_inj {above part below : List Component} {p q : Prop} [Decidable p] [Decidable q]
    (hpart : part ≠ []) :
    above ++ (if p then [] else part) ++ below = above ++ (if q then [] else part) ++ below ↔
    (p ↔ q) := by
  rw [List.append_left_inj, List.append_right_inj]
  split <;> split <;> simp_all

def inBin (c : Config) : Config := { c with programPath := c.binDir }

theorem endsInBin_inBin (h : IsDownward c.binDirName) : c.inBin.EndsInBin := by
  show components c.binDirName <:+ components c.binDir
  rw [components_binDir h]
  exact List.suffix_append _ _

/-- The helper is found in the directory of binaries, counted once, exactly if the directory is
spelled as its one name where the program path ends with it. Where the program path does not end
with it, the helper stays where it is when the program path becomes the directory of binaries
exactly if the directory is so spelled. A helper that is given by an absolute path is always found
there. -/
theorem same_helperPath_iff (c : Config) (h : IsDownward c.binDirName) :
    (same c.helperPath c.helperInBin = true ↔
      isAbsolute c.helperName = true ∨ (c.EndsInBin → IsOneName c.binDirName)) ∧
    (¬c.EndsInBin → (same c.inBin.helperPath c.helperPath = true ↔
      isAbsolute c.helperName = true ∨ IsOneName c.binDirName)) ∧
    (isAbsolute c.helperName = false → components c.helperPath = components c.programPath ++
      (if c.EndsInBin ∧ IsOneName c.binDirName then [] else components c.binDirName) ++
        inner c.helperName.toList) := by
  refine ⟨?_, fun hends => ?_, components_helperPath h⟩
  · cases hhelper : isAbsolute c.helperName with
    | true => simp [same_iff, helperPath_of_isAbsolute hhelper, helperInBin_of_isAbsolute hhelper]
    | false =>
      rw [same_iff, components_helperPath h hhelper, components_helperInBin h hhelper,
        append_ite_inj h.1]
      simp
  · cases hhelper : isAbsolute c.helperName with
    | true =>
      have hrooted : c.inBin.helperPath = c.helperName := helperPath_of_isAbsolute hhelper
      simp [same_iff, hrooted, helperPath_of_isAbsolute hhelper]
    | false =>
      have hrooted : components c.inBin.helperPath = components c.binDir ++
          (if c.inBin.EndsInBin ∧ IsOneName c.binDirName then [] else components c.binDirName) ++
            inner c.helperName.toList := components_helperPath (c := c.inBin) h hhelper
      have hbelow : components c.helperPath = components c.binDir ++
          (if True then [] else components c.binDirName) ++ inner c.helperName.toList := by
        rw [components_helperPath h hhelper, if_neg (fun hboth => hends hboth.1),
          components_binDir h, if_pos trivial, List.append_nil]
      rw [same_iff, hrooted, hbelow, append_ite_inj h.1]
      simp [endsInBin_inBin h]

/-- With a slash behind its name the directory is added to a program path that ends with it, and
once more below itself; without it the helper is found. -/
theorem same_helperPath_iff_slash_behind_name :
    let c : Config := { programPath := "/opt/x/bin", binDirName := "bin/" }
    let above : Config := { programPath := "/opt/x", binDirName := "bin/" }
    IsDownward "bin/" ∧ c.EndsInBin ∧ c.helperPath = "/opt/x/bin/bin/nsexec" ∧
    same c.helperPath c.helperInBin = false ∧
      ¬above.EndsInBin ∧ same above.inBin.helperPath above.helperPath = false ∧
      same (ofProgramPath "/opt/x/bin").helperPath (ofProgramPath "/opt/x/bin").helperInBin =
        true := by
  intro c above
  have hslash : components "bin/" = [.name "bin".toList] := by decide +kernel
  have hname : components "bin" = [.name "bin".toList] := by decide +kernel
  have hbin : IsDownward "bin/" := ⟨by simp [hslash], by simp [hslash]⟩
  have hplain : IsDownward "bin" := ⟨by simp [hname], by simp [hname]⟩
  have habove : ¬above.EndsInBin := by decide +kernel
  refine ⟨hbin, by decide +kernel, by decide +kernel, ?_, habove, ?_, ?_⟩
  · rw [← Bool.not_eq_true, (same_helperPath_iff c hbin).1]
    decide +kernel
  · rw [← Bool.not_eq_true, (same_helperPath_iff above hbin).2.1 habove]
    decide +kernel
  · rw [(same_helperPath_iff (ofProgramPath "/opt/x/bin") hplain).1]
    decide +kernel

end Config

end HostReach
