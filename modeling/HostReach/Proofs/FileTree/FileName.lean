import HostReach.Proofs.FileTree.Access
import HostReach.Proofs.Path.Join

/-!
Where the file name stands in the text of a path: before it a text that is empty or ends in a slash,
behind it nothing but slashes and dots. Another extension changes only the name, and makes a name
that is another one.
-/
namespace HostReach.FileTree

variable {a b t u : List Char} {x : Name} {base name trail : List Char} {path : String}

def cut (t : List Char) : List Name := (Chars.splitAt '/' t).filter (· != [])

theorem pieces_eq_cut (path : String) : pieces path = cut path.toList := rfl

theorem cut_append_slash (a b : List Char) : cut (a ++ '/' :: b) = cut a ++ cut b := by
  rw [cut, Chars.splitAt_append, List.filter_append]
  rfl

theorem cut_of_not_mem (h : '/' ∉ x) : cut x = if x = [] then [] else [x] := by
  rw [cut, Chars.splitAt_of_not_mem h]
  by_cases hx : x = []
  · simp [hx]
  · simp [hx]

def IsBase (t : List Char) : Prop := t = [] ∨ ∃ a, t = a ++ ['/']

theorem IsBase.cut_append (h : IsBase base) (t : List Char) :
    cut (base ++ t) = cut base ++ cut t := by
  rcases h with rfl | ⟨a, rfl⟩
  · rfl
  · rw [List.append_assoc, List.singleton_append, cut_append_slash, cut_append_slash]
    simp [cut, Chars.splitAt]

theorem isInert_iff : Path.isInert x = true ↔ x = [] ∨ x = ['.'] := by
  simp [Path.isInert]

theorem names_cut_of_isInert (hslash : '/' ∉ x) (h : Path.isInert x = true) :
    names (cut x) = [] := by
  rcases isInert_iff.mp h with rfl | rfl
  · rfl
  · rfl

inductive IsTrail : List Char → Prop
  | nil : IsTrail []
  | append {t : List Char} {x : Name} : IsTrail t → Path.isInert x = true → IsTrail (t ++ '/' :: x)

theorem not_mem_slash_of_isInert (h : Path.isInert x = true) : '/' ∉ x := by
  rcases isInert_iff.mp h with rfl | rfl <;> simp

theorem IsTrail.names_cut_append (h : IsTrail trail)
    (t : List Char) : names (cut (t ++ trail)) = names (cut t) := by
  induction h with
  | nil => rw [List.append_nil]
  | append _ hx ih =>
    rw [← List.append_assoc, cut_append_slash, names_append, ih,
      names_cut_of_isInert (not_mem_slash_of_isInert hx) hx, List.append_nil]

/-- A piece that counts, and what it stands between. -/
structure Splits (t base name trail : List Char) : Prop where
  eq : t = base ++ name ++ trail
  isBase : IsBase base
  isTrail : IsTrail trail
  slash : '/' ∉ name
  counts : Path.isInert name = false

namespace Splits

variable (h : Splits t base name trail)
include h

theorem name_ne : name ≠ [] ∧ name ≠ ['.'] := by
  have hcounts := h.counts
  rw [← Bool.not_eq_true, isInert_iff, not_or] at hcounts
  exact hcounts

theorem cut_name : cut name = [name] := by
  rw [cut_of_not_mem h.slash, if_neg h.name_ne.1]

theorem names_cut : names (cut t) = names (cut base) ++ [name] := by
  rw [h.eq, h.isTrail.names_cut_append, h.isBase.cut_append, names_append, h.cut_name,
    names_cons h.name_ne.2, names_nil]

end Splits

theorem Splits.trail_eq_nil (h : Splits t base name trail) (hends : name <:+ t) : trail = [] := by
  obtain ⟨heq, -, htrail, hslash, -⟩ := id h
  cases htrail with
  | nil => rfl
  | @append rest x _ hx =>
    have hlast : '/' :: x <:+ t := ⟨base ++ name ++ rest, by rw [heq, List.append_assoc _ rest]⟩
    rcases List.suffix_or_suffix_of_suffix hends hlast with hname | hname
    · rcases List.suffix_cons_iff.mp hname with rfl | hname
      · simp at hslash
      · rcases isInert_iff.mp hx with rfl | rfl
        · exact absurd (List.suffix_nil.mp hname) h.name_ne.1
        · rcases List.suffix_cons_iff.mp hname with rfl | hname
          · exact absurd rfl h.name_ne.2
          · exact absurd (List.suffix_nil.mp hname) h.name_ne.1
    · exact absurd (hname.subset List.mem_cons_self) hslash

theorem exists_lastPiece (t : List Char) : ∃ base x, t = base ++ x ∧ IsBase base ∧ '/' ∉ x := by
  induction t with
  | nil => exact ⟨[], [], rfl, .inl rfl, by simp⟩
  | cons c t ih =>
    obtain ⟨base, x, rfl, hbase, hx⟩ := ih
    rcases hbase with rfl | ⟨a, rfl⟩
    · by_cases hc : c = '/'
      · exact ⟨[c], x, rfl, .inr ⟨[], by simp [hc]⟩, hx⟩
      · exact ⟨[], c :: x, rfl, .inl rfl, by simp [hx, Ne.symm hc]⟩
    · exact ⟨c :: (a ++ ['/']), x, rfl, .inr ⟨c :: a, rfl⟩, hx⟩

theorem exists_splits {t : List Char} (h : names (cut t) ≠ []) :
    ∃ base name trail, Splits t base name trail := by
  obtain ⟨base, x, rfl, hbase, hx⟩ := exists_lastPiece t
  cases hcounts : Path.isInert x with
  | false => exact ⟨base, x, [], by simp, hbase, .nil, hx, hcounts⟩
  | true =>
    have hnames : names (cut x) = [] := names_cut_of_isInert hx hcounts
    rcases hbase with rfl | ⟨a, rfl⟩
    · exact absurd hnames h
    · rw [List.append_assoc, List.singleton_append, cut_append_slash, names_append, hnames,
        List.append_nil] at h
      have hlength : a.length < (a ++ ['/'] ++ x).length := by simp
      obtain ⟨base, name, trail, rfl, hbase, htrail, hslash, hname⟩ := exists_splits h
      exact ⟨base, name, trail ++ '/' :: x, by simp, hbase, .append htrail hcounts, hslash, hname⟩
termination_by t.length

theorem innerPieces_splitAt (t : List Char) :
    Path.innerPieces (Chars.splitAt '/' t) = names (cut t) := by
  rw [names, cut, List.filter_filter, Path.innerPieces]
  congr 1
  funext x
  by_cases hempty : x = []
  · simp [hempty]
  · by_cases hdot : x = ['.'] <;> simp [hempty, hdot]

theorem componentList_eq (t : List Char) : ∃ head, (∀ k ∈ head, k = .root ∨ k = .here) ∧
    Path.componentList t = head ++ (names (cut t)).map Path.Component.ofPiece := by
  exact ⟨Path.leading t, fun _ => Path.eq_of_mem_leading,
    by rw [Path.componentList_eq_append, Path.inner, innerPieces_splitAt]⟩

theorem isPlain_iff : IsPlain (pieces path) ↔ Path.Component.up ∉ Path.components path := by
  obtain ⟨head, hhead, heq⟩ := componentList_eq path.toList
  have hup : Path.Component.up ∉ head := fun h => by rcases hhead _ h with h | h <;> cases h
  have hpiece (x : Name) : Path.Component.ofPiece x = .up ↔ x = ['.', '.'] := by
    unfold Path.Component.ofPiece
    split <;> simp_all
  rw [IsPlain, Path.components, heq, List.mem_append, not_or, List.mem_map]
  simp only [hup, not_false_eq_true, true_and, hpiece, exists_eq_right, pieces_eq_cut, names,
    List.mem_filter]
  simp

theorem fileName?_of_splits (h : Splits path.toList base name trail) (hup : name ≠ ['.', '.']) :
    Path.fileName? path = some name := by
  obtain ⟨head, -, heq⟩ := componentList_eq path.toList
  have hname : Path.Component.ofPiece name = .name name := by simp [Path.Component.ofPiece, hup]
  rw [h.names_cut, List.map_append, ← List.append_assoc] at heq
  rw [Path.fileName?, Path.components, heq, List.map_singleton, List.getLast?_concat, hname]

theorem Splits.ne_up (h : Splits t base name trail) (hplain : IsPlain (cut t)) :
    name ≠ ['.', '.'] := by
  rintro rfl
  have hmem : ['.', '.'] ∈ names (cut t) := by simp [h.names_cut]
  exact hplain (List.mem_filter.mp hmem).1

theorem Splits.isPlain_base (h : Splits t base name trail) (hplain : IsPlain (cut t)) :
    IsPlain (cut base) := by
  rw [h.eq, List.append_assoc, h.isBase.cut_append, isPlain_append] at hplain
  exact hplain.1

theorem fileName?_of_names_eq_nil (h : names (cut path.toList) = []) :
    Path.fileName? path = none := by
  obtain ⟨head, hhead, heq⟩ := componentList_eq path.toList
  rw [h, List.map_nil, List.append_nil] at heq
  rw [Path.fileName?, Path.components, heq]
  cases hlast : head.getLast? with
  | none => rfl
  | some k => rcases hhead k (List.mem_of_getLast? hlast) with rfl | rfl <;> rfl

theorem exists_splits_of_fileName? (hplain : IsPlain (pieces path))
    (h : Path.fileName? path = some name) :
    ∃ base trail, Splits path.toList base name trail := by
  have hnames : names (cut path.toList) ≠ [] := by
    intro hnil
    rw [fileName?_of_names_eq_nil hnil] at h
    cases h
  obtain ⟨base, last, trail, hsplits⟩ := exists_splits hnames
  rw [fileName?_of_splits hsplits (hsplits.ne_up hplain)] at h
  cases h
  exact ⟨base, trail, hsplits⟩

theorem search_append (hname : name ≠ []) (b : List Char) :
    Path.withoutFileName.search name (name.reverse ++ b) = b := by
  obtain ⟨c, r, hr⟩ := List.exists_cons_of_ne_nil (List.reverse_ne_nil_iff.mpr hname)
  have hlength : name.length = (c :: r).length := by rw [← hr, List.length_reverse]
  have hpart : name.reverse.isPrefixOf (c :: (r ++ b)) = true := by
    rw [List.isPrefixOf_iff_prefix, hr]
    exact ⟨b, rfl⟩
  rw [hr, List.cons_append, Path.withoutFileName.search, if_pos hpart, ← List.cons_append, hlength,
    List.drop_left]

theorem search_inert (hslash : '/' ∉ name) (hne : name ≠ [] ∧ name ≠ ['.'])
    (hx : Path.isInert x = true) (b : List Char) :
    Path.withoutFileName.search name (x ++ '/' :: b) = Path.withoutFileName.search name b := by
  have hmem : '/' ∉ name.reverse := by simpa using hslash
  have hreverse : name.reverse ≠ [] ∧ name.reverse ≠ ['.'] := by
    refine ⟨by simpa using hne.1, fun h => hne.2 ?_⟩
    rw [← List.reverse_reverse name, h]
    rfl
  have hstop : name.reverse.isPrefixOf ('/' :: b) = false := by
    cases hr : name.reverse with
    | nil => exact absurd hr hreverse.1
    | cons c r =>
      rw [hr] at hmem
      have hc : c ≠ '/' := fun h => hmem (by simp [h])
      simp [List.isPrefixOf, hc]
  rcases isInert_iff.mp hx with rfl | rfl
  · rw [List.nil_append, Path.withoutFileName.search, if_neg (by simp [hstop])]
  · have hdot : name.reverse.isPrefixOf ('.' :: '/' :: b) = false := by
      cases hr : name.reverse with
      | nil => exact absurd hr hreverse.1
      | cons c r =>
        cases r with
        | nil =>
          have hc : c ≠ '.' := fun h => hreverse.2 (by rw [hr, h])
          simp [List.isPrefixOf, hc]
        | cons d r =>
          rw [hr] at hmem
          have hd : d ≠ '/' := fun h => hmem (by simp [h])
          simp [List.isPrefixOf, hd]
    rw [List.singleton_append, Path.withoutFileName.search, if_neg (by simp [hdot]),
      Path.withoutFileName.search, if_neg (by simp [hstop])]

theorem search_trail (hslash : '/' ∉ name) (hne : name ≠ [] ∧ name ≠ ['.']) (htrail : IsTrail trail)
    (b : List Char) :
    Path.withoutFileName.search name (trail.reverse ++ b) = Path.withoutFileName.search name b := by
  induction htrail generalizing b with
  | nil => rfl
  | @append t x _ hx ih =>
    have hreverse : x.reverse = x := by rcases isInert_iff.mp hx with rfl | rfl <;> rfl
    rw [List.reverse_append, List.reverse_cons, hreverse, List.append_assoc, List.append_assoc,
      List.singleton_append, search_inert hslash hne hx, ih]

theorem withoutFileName_of_splits (h : Splits t base name trail) :
    Path.withoutFileName t name = base := by
  rw [Path.withoutFileName, h.eq, List.reverse_append, List.reverse_append,
    search_trail h.slash h.name_ne h.isTrail, search_append h.name_ne.1, List.reverse_reverse]

theorem splitLast_of_not_mem {sep : Char} (h : sep ∉ t) : Chars.splitLast sep t = none := by
  induction t with
  | nil => rfl
  | cons c t ih =>
    simp only [List.mem_cons, not_or] at h
    rw [Chars.splitLast, ih h.2]
    simp [Ne.symm h.1]

theorem splitLast_append {sep : Char} (h : sep ∉ b) (a : List Char) :
    Chars.splitLast sep (a ++ sep :: b) = some (a, b) := by
  induction a with
  | nil =>
    rw [List.nil_append, Chars.splitLast, splitLast_of_not_mem h]
    simp
  | cons c a ih => rw [List.cons_append, Chars.splitLast, ih]

theorem eq_of_splitLast {sep : Char} (h : Chars.splitLast sep t = some (a, b)) :
    t = a ++ sep :: b := by
  induction t generalizing a with
  | nil => cases h
  | cons c t ih =>
    rw [Chars.splitLast] at h
    split at h
    · next hrest =>
      cases h
      rw [ih hrest, List.cons_append]
    · split at h
      · next hc =>
        cases h
        rw [eq_of_beq hc, List.nil_append]
      · cases h

theorem mem_of_mem_stem {c : Char} (h : c ∈ Path.stem name) : c ∈ name := by
  unfold Path.stem at h
  split at h
  · exact h
  · next hsplit =>
    rw [eq_of_splitLast hsplit]
    exact List.mem_append_left _ h
  · exact h

theorem stem_append (ha : a ≠ []) (hb : '.' ∉ b) : Path.stem (a ++ '.' :: b) = a := by
  unfold Path.stem
  rw [splitLast_append hb]
  cases a with
  | nil => exact absurd rfl ha
  | cons c a => rfl

def tempName (name : Name) : Name := Path.stem name ++ ".json.tmp".toList

theorem tempName_ne (name : Name) : tempName name ≠ name := by
  intro h
  have hsuffix : ".json.tmp".toList = ".json".toList ++ '.' :: "tmp".toList := by decide +kernel
  have hlength : 0 < (".json".toList).length := by decide +kernel
  have hname : Path.stem name ++ ".json".toList ++ '.' :: "tmp".toList = name := by
    rw [List.append_assoc, ← hsuffix]
    exact h
  have hstem : Path.stem (Path.stem name ++ ".json".toList ++ '.' :: "tmp".toList) =
      Path.stem name ++ ".json".toList := by
    refine stem_append (fun hnil => ?_) (by decide +kernel)
    rw [(List.append_eq_nil_iff.mp hnil).2] at hlength
    exact absurd hlength (Nat.lt_irrefl 0)
  rw [hname] at hstem
  have hboth := congrArg List.length hstem
  rw [List.length_append] at hboth
  omega

theorem length_tempName (name : Name) : 9 ≤ (tempName name).length := by
  have hlength : (".json.tmp".toList).length = 9 := by decide +kernel
  rw [tempName, List.length_append, hlength]
  omega

theorem tempName_ne_up (name : Name) : tempName name ≠ ['.', '.'] := by
  intro h
  have hlength := length_tempName name
  simp [h] at hlength

theorem not_mem_tempName (h : '/' ∉ name) : '/' ∉ tempName name := by
  have hsuffix : '/' ∉ ".json.tmp".toList := by decide +kernel
  rw [tempName, List.mem_append, not_or]
  exact ⟨fun hmem => h (mem_of_mem_stem hmem), hsuffix⟩

theorem toList_withExtension (h : Splits path.toList base name trail) (hup : name ≠ ['.', '.']) :
    (Path.withExtension path "json.tmp").toList = base ++ tempName name ∨
      Path.stem name = ['.'] ∧ trail = [] ∧
      (Path.withExtension path "json.tmp").toList = base ++ ['.', '.'] := by
  have htext : ".json.tmp".toList = '.' :: "json.tmp".toList := by decide +kernel
  unfold Path.withExtension
  simp only [fileName?_of_splits h hup, withoutFileName_of_splits h]
  split
  · next hdot =>
    simp only [Bool.and_eq_true, beq_iff_eq] at hdot
    refine .inr ⟨hdot.1, ?_, String.toList_ofList⟩
    have heq := h.eq
    rw [hdot.2] at heq
    simpa using heq
  · left
    rw [String.toList_ofList, tempName, htext, List.append_assoc]

theorem splits_tempName (h : Splits t base name trail) :
    Splits (base ++ tempName name) base (tempName name) [] := by
  refine ⟨(List.append_nil _).symm, h.isBase, .nil, not_mem_tempName h.slash, ?_⟩
  have hlength := length_tempName name
  rw [← Bool.not_eq_true, isInert_iff]
  rintro (hname | hname)
  · simp [hname] at hlength
  · simp [hname] at hlength

namespace Splits

theorem start_eq (tree : FileTree) (h : Splits path.toList base name trail) :
    tree.start path = if base.head? = some '/' then [] else tree.current := by
  have habsolute : Path.isAbsolute path = (base.head? == some '/') := by
    rw [Path.isAbsolute, h.eq]
    cases base with
    | cons c a => rfl
    | nil =>
      obtain ⟨c, r, rfl⟩ := List.exists_cons_of_ne_nil h.name_ne.1
      have hc : c ≠ '/' := fun hc => h.slash (by simp [hc])
      simp [hc]
  simp only [FileTree.start, habsolute, beq_iff_eq]

theorem place_eq (tree : FileTree) (h : Splits path.toList base name trail) :
    tree.place path = tree.start path ++ names (cut base) ++ [name] := by
  rw [FileTree.place, pieces_eq_cut, h.names_cut, List.append_assoc]

variable (h : Splits path.toList base name [])
include h

theorem pieces_eq : pieces path = cut base ++ [name] := by
  rw [pieces_eq_cut, h.eq, List.append_nil, h.isBase.cut_append, h.cut_name]

theorem endsInSlash_eq_false : endsInSlash path = false := by
  obtain ⟨c, hc⟩ : ∃ c, name.getLast? = some c := ⟨_, List.getLast?_eq_some_getLast h.name_ne.1⟩
  have hne : c ≠ '/' := fun heq => h.slash (heq ▸ List.mem_of_getLast? hc)
  have hlast : path.toList.getLast? = some c := by
    rw [h.eq, List.append_nil, List.getLast?_append, hc]
    rfl
  rw [endsInSlash, hlast]
  simpa using hne

theorem isPlain (hbase : IsPlain (cut base)) (hup : name ≠ ['.', '.']) : IsPlain (pieces path) := by
  rw [h.pieces_eq, isPlain_append]
  exact ⟨hbase, by simpa [IsPlain] using Ne.symm hup⟩

theorem leadsTo (tree : FileTree) (hrefusal : refusal? path = none) (hplain : IsPlain (pieces path))
    (hfits : Fits (names (pieces path))) :
    LeadsTo tree path (tree.start path ++ names (cut base)) name := by
  rw [h.pieces_eq, isPlain_append] at hplain
  rw [h.pieces_eq, names_append, names_cons h.name_ne.2, names_nil, fits_append] at hfits
  refine ⟨hrefusal, ⟨_, h.pieces_eq, hplain.1, hfits.1, rfl⟩, h.name_ne.2, fun hup => ?_,
    by simpa [Fits] using hfits.2⟩
  exact hplain.2 (by simp [hup])

end Splits

end HostReach.FileTree
