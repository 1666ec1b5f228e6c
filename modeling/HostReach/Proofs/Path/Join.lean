import HostReach.Path
import HostReach.Proofs.Text.Cut

/-!
The components of paths that are put together. A relative path behind another one adds the
components of its pieces, so that joining respects that two texts name the same path.
-/
namespace HostReach.Path

variable {a b t x : List Char} {base part path : String}

def leading (t : List Char) : List Component :=
  if t.head? = some '/' then [.root]
  else if (Chars.splitAt '/' t).head? = some ['.'] then [.here]
  else []

theorem eq_of_mem_leading {k : Component} (h : k ∈ leading t) : k = .root ∨ k = .here := by
  unfold leading at h
  split at h
  · exact .inl (List.mem_singleton.mp h)
  · split at h
    · exact .inr (List.mem_singleton.mp h)
    · cases h

def inner (t : List Char) : List Component :=
  (innerPieces (Chars.splitAt '/' t)).map Component.ofPiece

theorem componentList_eq_append (t : List Char) : componentList t = leading t ++ inner t := by
  unfold componentList leading inner
  simp only [beq_iff_eq]
  split
  · rfl
  · rename_i hslash
    have hhead : t.head? ≠ some '/' := by
      intro h
      obtain ⟨t', rfl⟩ := List.head?_eq_some_iff.mp h
      exact hslash t' rfl
    rw [if_neg hhead]
    split <;> rfl

theorem inner_append_slash (a b : List Char) : inner (a ++ '/' :: b) = inner a ++ inner b := by
  simp only [inner, innerPieces, Chars.splitAt_append, List.filter_append, List.map_append]

theorem leading_append_slash (h : a ≠ []) (b : List Char) :
    leading (a ++ '/' :: b) = leading a := by
  obtain ⟨piece, pieces, hpieces⟩ := List.exists_cons_of_ne_nil (Chars.splitAt_ne_nil '/' a)
  obtain ⟨c, a, rfl⟩ := List.exists_cons_of_ne_nil h
  rw [leading, leading, Chars.splitAt_append, hpieces]
  rfl

theorem componentList_append_singleton (h : a ≠ []) :
    componentList (a ++ ['/']) = componentList a := by
  rw [componentList_eq_append, componentList_eq_append, leading_append_slash h, inner_append_slash]
  exact congrArg (leading a ++ ·) (List.append_nil _)

theorem componentList_append_slash (a b : List Char) :
    componentList (a ++ '/' :: b) = componentList (a ++ ['/']) ++ inner b := by
  by_cases h : a = []
  · subst h
    rfl
  · rw [componentList_append_singleton h, componentList_eq_append, componentList_eq_append,
      leading_append_slash h, inner_append_slash, List.append_assoc]

theorem componentList_eq_nil : componentList t = [] ↔ t = [] := by
  constructor
  · intro h
    obtain ⟨hleading, hinner⟩ := List.append_eq_nil_iff.mp (componentList_eq_append t ▸ h)
    cases t with
    | nil => rfl
    | cons c t =>
      have hc : c ≠ '/' := by
        rintro rfl
        simp [leading] at hleading
      have hpiece : ∃ piece pieces, Chars.splitAt '/' (c :: t) = (c :: piece) :: pieces := by
        rw [Chars.splitAt, if_neg (by simpa using hc)]
        cases Chars.splitAt '/' t with
        | nil => exact ⟨[], [], rfl⟩
        | cons piece pieces => exact ⟨piece, pieces, rfl⟩
      obtain ⟨piece, pieces, hpieces⟩ := hpiece
      by_cases hdot : c :: piece = ['.']
      · simp [leading, hpieces, hdot, hc] at hleading
      · simp [inner, innerPieces, hpieces, hdot] at hinner
  · rintro rfl
    rfl

theorem components_eq_nil : components path = [] ↔ path = "" := by
  rw [components, componentList_eq_nil, String.toList_eq_nil_iff]

theorem componentList_of_name_mem {s : List Char} (h : .name s ∈ components path) :
    componentList s = [.name s] := by
  rw [components, componentList_eq_append, List.mem_append] at h
  have hinner : .name s ∈ inner path.toList := by
    refine h.resolve_left fun hleading => ?_
    rcases eq_of_mem_leading hleading with hname | hname <;> cases hname
  obtain ⟨p, hp, hname⟩ := List.mem_map.mp hinner
  obtain ⟨hpiece, hcounts⟩ := List.mem_filter.mp hp
  have hslash : '/' ∉ p := Chars.not_mem_of_mem_splitAt p hpiece
  simp only [Component.ofPiece] at hname
  split at hname
  · cases hname
  · cases hname
    rename_i hup
    simp only [Bool.and_eq_true, bne_iff_ne, ne_eq] at hcounts
    have hhead : s.head? ≠ some '/' := fun hs => hslash (List.mem_of_mem_head? hs)
    rw [componentList_eq_append]
    simp [leading, inner, innerPieces, Chars.splitAt_of_not_mem hslash, hhead, hcounts,
      Component.ofPiece, hup]

theorem join_of_isAbsolute (h : isAbsolute part = true)
    (base : String) : join base part = part := by
  rw [join, if_pos h]

theorem components_join (hbase : base ≠ "") (h : isAbsolute part = false) :
    components (join base part) = components base ++ inner part.toList := by
  have hne : base.toList ≠ [] := by simpa using hbase
  have hempty : base.isEmpty = false := by simpa using hbase
  unfold join
  simp only [h, hempty, Bool.false_eq_true, if_false, Bool.false_or, beq_iff_eq]
  split
  · rename_i hlast
    obtain ⟨a, ha⟩ := List.getLast?_eq_some_iff.mp hlast
    rw [components, components, String.toList_append, ha, List.append_assoc]
    exact componentList_append_slash a part.toList
  · rw [components, components, String.toList_append, String.toList_append, List.append_assoc,
      ← componentList_append_singleton hne]
    exact componentList_append_slash base.toList part.toList

end HostReach.Path
