import HostReach.Proofs.FileTree.Access
import HostReach.Proofs.FileTree.FileName

/-!
The directories above a path are made where there is none, if no file is in the way. Each of the
paths above it leads to the directory that holds the one below.
-/
namespace HostReach.FileTree

variable {t u : FileTree} {path : String} {paths : List String} {p q s : Place}
    {ps : List Name} {x : Name}

/-- Paths that lead down from a place: each one goes a name further than the next, and the last one,
if any, stays at the place itself. -/
inductive Descends (t : FileTree) (s : Place) : List String → Place → Prop
  | nil : Descends t s [] s
  | stay {path : String} : refusal? path = none → t.start path = s → names (pieces path) = [] →
      Descends t s [path] s
  | cons {path : String} {above : List String} {p : Place} {x : Name} :
    Descends t s above p → t.start path = s → LeadsTo t path p x →
    Descends t s (path :: above) (p ++ [x])

theorem Descends.of_current (h : Descends t s paths p) (hcurrent : u.current = t.current) :
    Descends u s paths p := by
  induction h with
  | nil => exact .nil
  | stay hrefusal hs hnames => exact .stay hrefusal ((start_of_current hcurrent _).trans hs) hnames
  | cons _ hs hleads ih =>
    exact .cons ih ((start_of_current hcurrent _).trans hs) (hleads.of_current hcurrent)

theorem isPlain_of_names_eq_nil (h : names ps = []) : IsPlain ps := by
  intro hup
  have hdot := eq_dot_of_names_eq_nil h _ hup
  simp at hdot

theorem makeDirectories_of_exists {above : List String}
    (hmake : t.makeDirectory path = .error .alreadyExists)
    (hdirectory : t.isDirectory path = true) : t.makeDirectories (path :: above) = (t, .ok ()) := by
  rw [makeDirectories, hmake]
  simp [hdirectory]

theorem makeDirectories_stay (hrefusal : refusal? path = none) (hnames : names (pieces path) = [])
    (hstart : t.kind? (t.start path) = some .directory) :
    t.makeDirectories [path] = (t, .ok ()) := by
  obtain ⟨es, hes⟩ := kind?_eq_directory.mp hstart
  have hplain := isPlain_of_names_eq_nil hnames
  have hfind : t.find path = .ok (t.start path, .directory es) := by
    refine (find_eq_ok hplain).mpr ⟨hrefusal, ?_, hes, by simp [hnames, Fits], .inl rfl⟩
    rw [place, hnames, List.append_nil]
  refine makeDirectories_of_exists ?_ (isDirectory_iff.mpr ⟨_, es, hfind⟩)
  have htarget : t.target path = .ok none := by
    rcases List.eq_nil_or_concat' (pieces path) with hpieces | ⟨ups, x, hpieces⟩
    · simp [target, hrefusal, hpieces]
    · rw [hpieces, isPlain_append] at hplain
      rw [hpieces, names_append, List.append_eq_nil_iff] at hnames
      have hfollow : t.follow path ups = .ok (t.start path, .directory es) := by
        refine (follow_eq_ok hplain.1).mpr ⟨?_, hes, by simp [hnames.1, Fits], .inl rfl⟩
        rw [hnames.1, List.append_nil]
      rw [target_of_directory hrefusal hpieces hfollow,
        if_pos (.inl (eq_dot_of_names_eq_nil hnames.2 x (by simp)))]
  rw [makeDirectory, htarget]
  rfl

theorem LeadsTo.makeDirectory (h : LeadsTo t path p x) (hdirectory : t.kind? p = some .directory)
    (hnone : t.kind? (p ++ [x]) = none) :
    t.makeDirectory path = .ok (t.put (p ++ [x]) (.directory .nil)) := by
  rw [FileTree.makeDirectory, h.target hdirectory, kind?_eq_none.mp hnone]
  rfl

theorem LeadsTo.makeDirectory_exists (h : LeadsTo t path p x)
    (hdirectory : t.kind? p = some .directory) (hexists : t.kind? (p ++ [x]) = some .directory) :
    t.makeDirectory path = .error .alreadyExists := by
  obtain ⟨es, hes⟩ := kind?_eq_directory.mp hexists
  rw [FileTree.makeDirectory, h.target hdirectory, hes]
  rfl

/-- A tree in which the directories down to a place have been made, and nothing else. -/
structure Opens (t u : FileTree) (p : Place) : Prop where
  current : u.current = t.current
  kind? (q : Place) : u.kind? q = if q <+: p then some .directory else t.kind? q

theorem Opens.refl (h : t.kind? p = some .directory) : Opens t t p where
  current := rfl
  kind? q := by
    split
    · next hq => exact kind?_above h hq
    · rfl

theorem Opens.directory (h : Opens t u p) : u.kind? p = some .directory := by
  rw [h.kind?, if_pos List.prefix_rfl]

theorem not_below_itself (p : Place) (x : Name) : ¬p ++ [x] <+: p := by
  intro h
  have hlength := h.length_le
  rw [List.length_append, List.length_singleton] at hlength
  omega

theorem Opens.kind?_below (h : Opens t u p) (x : Name) :
    u.kind? (p ++ [x]) = t.kind? (p ++ [x]) := by
  rw [h.kind?, if_neg (not_below_itself p x)]

theorem Opens.put (h : Opens t u p) (hnone : t.kind? (p ++ [x]) = none) :
    Opens t (u.put (p ++ [x]) (.directory .nil)) (p ++ [x]) where
  current := by rw [current_put, h.current]
  kind? q := by
    have hold : u.kind? (p ++ [x]) ≠ some .directory := by simp [h.kind?_below, hnone]
    rw [kind?_put h.directory hold Node.isLeaf_empty, h.kind?]
    by_cases hq : q = p ++ [x]
    · rw [if_pos hq, if_pos (hq ▸ List.prefix_rfl)]
      rfl
    · simp only [hq, if_false, List.prefix_concat_iff, false_or]

theorem makeDirectories_of_descends (h : Descends t s paths p) (hs : t.kind? s = some .directory)
    (hclear : ∀ q, q <+: p → t.kind? q = none ∨ t.kind? q = some .directory) :
    ∃ u, t.makeDirectories paths = (u, .ok ()) ∧ Opens t u p := by
  induction h with
  | nil => exact ⟨t, rfl, .refl hs⟩
  | @stay path hrefusal hstart hnames =>
    subst hstart
    exact ⟨t, makeDirectories_stay hrefusal hnames hs, .refl hs⟩
  | @cons path above p x _ hstart hleads ih =>
    subst hstart
    have hclear' (q : Place) (hq : q <+: p) := hclear q (hq.trans (List.prefix_append p [x]))
    rcases hclear' p List.prefix_rfl with hmissing | hdirectory
    · -- The directories above are made first, and then this one.
      obtain ⟨u, hu, hopens⟩ := ih hclear'
      have hnone : t.kind? (p ++ [x]) = none := kind?_below (by simp [hmissing]) x []
      have hfirst : t.makeDirectory path = .error .notFound := by
        rw [makeDirectory, hleads.target_missing hs hclear' hmissing]
        rfl
      have hsecond : u.makeDirectory path = .ok (u.put (p ++ [x]) (.directory .nil)) :=
        (hleads.of_current hopens.current).makeDirectory hopens.directory
          (by rw [hopens.kind?_below, hnone])
      refine ⟨_, ?_, hopens.put hnone⟩
      rw [makeDirectories, hfirst]
      simp only [hu, hsecond]
    · rcases hclear _ List.prefix_rfl with hnone | hexists
      · refine ⟨_, ?_, (Opens.refl hdirectory).put hnone⟩
        rw [makeDirectories, hleads.makeDirectory hdirectory hnone]
      · have hmake := hleads.makeDirectory_exists hdirectory hexists
        exact ⟨t, makeDirectories_of_exists hmake (hleads.isDirectory_iff.mpr hexists),
          .refl hexists⟩

def pathText (head : List Char) (reversed : List Name) : List Char :=
  head ++ ['/'].intercalate reversed.reverse

def IsHead (head : List Char) (reversed : List Name) : Prop :=
  head = [] ∨ head = ['/'] ∨ head = ['.'] ∧ ∀ x, reversed.getLast? = some x → x = []

variable {head text : List Char} {above reversed : List Name} {base name : List Char}

theorem pathText_cons_cons (head : List Char) (x y : Name) (above : List Name) :
    pathText head (x :: y :: above) = pathText head (y :: above) ++ '/' :: x := by
  rw [pathText, pathText, List.reverse_cons, Chars.intercalate_concat (by simp), List.append_assoc,
    List.singleton_append]

theorem pathText_singleton (head : List Char) (x : Name) : pathText head [x] = head ++ x := by
  simp [pathText]

theorem pathText_above (head : List Char) (x : Name) (above : List Name) :
    pathText head above <+: pathText head (x :: above) := by
  cases above with
  | nil =>
    rw [pathText_singleton, pathText, List.reverse_nil, List.intercalate_nil, List.append_nil]
    exact List.prefix_append _ _
  | cons y above =>
    rw [pathText_cons_cons]
    exact List.prefix_append _ _

theorem IsHead.of_cons (h : IsHead head (x :: above)) : IsHead head above := by
  rcases h with h | h | ⟨h, hfirst⟩
  · exact .inl h
  · exact .inr (.inl h)
  · refine .inr (.inr ⟨h, fun y hy => hfirst y ?_⟩)
    cases above with
    | nil => cases hy
    | cons z above => rwa [List.getLast?_cons_cons]

theorem cut_pathText_cons (h : IsHead head (x :: above)) :
    cut (pathText head (x :: above)) = cut (pathText head above) ++ cut x := by
  cases above with
  | cons y above => rw [pathText_cons_cons, cut_append_slash]
  | nil =>
    rw [pathText_singleton, pathText, List.reverse_nil, List.intercalate_nil, List.append_nil]
    rcases h with rfl | rfl | ⟨rfl, hfirst⟩
    · rfl
    · exact cut_append_slash [] x
    · rw [hfirst x rfl]
      rfl

theorem refusal?_of_part (h : refusal? path = none) (hpart : text <+: path.toList)
    (hne : text ≠ []) :
    refusal? (String.ofList text) = none := by
  obtain ⟨rest, hrest⟩ := hpart
  have hpath : path = String.ofList text ++ String.ofList rest := by
    rw [← String.ofList_append, hrest, String.ofList_toList]
  have hempty : (String.ofList text).isEmpty = false := by simpa using hne
  unfold refusal? at h ⊢
  rw [hpath, String.utf8ByteSize_append, String.toList_append] at h
  rw [hempty]
  by_cases hnul : '\x00' ∈ text
  · simp [hnul] at h
  · by_cases hsize : pathBytesLimit ≤ (String.ofList text).utf8ByteSize
    · have hlong := Nat.le_trans hsize (Nat.le_add_right _ (String.ofList rest).utf8ByteSize)
      simp only [hlong, if_true] at h
      split at h
      · cases h
      · split at h <;> cases h
    · simp [hnul, hsize]

theorem start_of_part (t : FileTree) (hpart : text <+: path.toList) (hne : text ≠ []) :
    t.start (String.ofList text) = t.start path := by
  obtain ⟨rest, hrest⟩ := hpart
  obtain ⟨c, u, rfl⟩ := List.exists_cons_of_ne_nil hne
  rw [start, start, Path.isAbsolute, Path.isAbsolute, ← hrest, String.toList_ofList]
  rfl

theorem descends_ancestorsFrom (hhead : IsHead head reversed) (hslash : ∀ x ∈ reversed, '/' ∉ x)
    (hpart : pathText head reversed <+: path.toList) (hrefusal : refusal? path = none)
    (hplain : IsPlain (cut (pathText head reversed)))
    (hfits : Fits (names (cut (pathText head reversed)))) :
    Descends t (t.start path) (Path.ancestorsFrom head reversed)
      (t.start path ++ names (cut (pathText head reversed))) := by
  induction reversed with
  | nil =>
    rw [pathText, List.reverse_nil, List.intercalate_nil, List.append_nil] at hpart ⊢
    have hnames : names (cut head) = [] := by rcases hhead with rfl | rfl | ⟨rfl, -⟩ <;> rfl
    rw [hnames, List.append_nil, Path.ancestorsFrom]
    cases hempty : head.isEmpty with
    | true => exact .nil
    | false =>
      have hne : head ≠ [] := by simpa using hempty
      refine .stay (refusal?_of_part hrefusal hpart hne) (start_of_part t hpart hne) ?_
      rwa [pieces_eq_cut, String.toList_ofList]
  | cons x above ih =>
    rw [List.forall_mem_cons] at hslash
    rw [cut_pathText_cons hhead, isPlain_append] at hplain
    rw [cut_pathText_cons hhead, names_append, fits_append] at hfits
    have hdescends :=
      ih hhead.of_cons hslash.2 ((pathText_above head x above).trans hpart) hplain.1 hfits.1
    rw [cut_pathText_cons hhead, names_append, Path.ancestorsFrom]
    cases hinert : Path.isInert x with
    | true =>
      rw [names_cut_of_isInert hslash.1 hinert, List.append_nil]
      exact hdescends
    | false =>
      have hne : x ≠ [] ∧ x ≠ ['.'] := by rwa [← Bool.not_eq_true, isInert_iff, not_or] at hinert
      have hcut : cut x = [x] := by rw [cut_of_not_mem hslash.1, if_neg hne.1]
      rw [hcut] at hplain hfits ⊢
      rw [names_cons hne.2, names_nil] at hfits ⊢
      have htext : pathText head (x :: above) ≠ [] := by
        intro hnil
        have hpieces := cut_pathText_cons hhead
        rw [hnil, hcut] at hpieces
        simp [cut, Chars.splitAt] at hpieces
      have hstep : IsStep x :=
        ⟨hne.2, fun hup => hplain.2 (by simp [hup]), by simpa [Fits] using hfits.2⟩
      rw [← List.append_assoc]
      have hstart := start_of_part t hpart htext
      have hpieces : pieces (String.ofList (pathText head (x :: above))) =
          cut (pathText head above) ++ [x] := by
        rw [pieces_eq_cut, String.toList_ofList, cut_pathText_cons hhead, hcut]
      have hleads : LeadsTo t (String.ofList (pathText head (x :: above)))
          (t.start path ++ names (cut (pathText head above))) x :=
        ⟨refusal?_of_part hrefusal hpart htext,
          ⟨_, hpieces, hplain.1, hfits.1, by rw [hstart]⟩, hstep⟩
      exact .cons hdescends hstart hleads

theorem getLast?_splitAt_append (a b : List Char) :
    (Chars.splitAt '/' (a ++ '/' :: b)).getLast? = (Chars.splitAt '/' b).getLast? := by
  rw [Chars.splitAt_append, List.getLast?_append,
    List.getLast?_eq_some_getLast (Chars.splitAt_ne_nil '/' b)]
  rfl

theorem headAndPieces_spec {t : List Char} {ps : List Name}
    (h : Path.headAndPieces t = (head, ps)) :
    pathText head ps.reverse = t ∧ IsHead head ps.reverse ∧ (∀ x ∈ ps, '/' ∉ x) ∧
      (t = ['.'] ∨ ps.getLast? = (Chars.splitAt '/' t).getLast?) := by
  have htext (head u : List Char) : pathText head (Chars.splitAt '/' u).reverse = head ++ u := by
    rw [pathText, List.reverse_reverse, Chars.intercalate_splitAt]
  unfold Path.headAndPieces at h
  split at h
  · next u =>
    cases h
    exact ⟨htext _ u, .inr (.inl rfl), Chars.not_mem_of_mem_splitAt,
      .inr (getLast?_splitAt_append [] u).symm⟩
  · cases h
    exact ⟨rfl, .inr (.inr ⟨rfl, by simp⟩), by simp, .inl rfl⟩
  · next u =>
    cases h
    have hfirst (x : Name) (hx : (Chars.splitAt '/' ('/' :: u)).reverse.getLast? = some x) : x =
        [] := by
      rw [List.getLast?_reverse] at hx
      exact (Option.some.inj hx).symm
    have hlast := (getLast?_splitAt_append [] u).trans (getLast?_splitAt_append ['.'] u).symm
    exact ⟨htext _ ('/' :: u), .inr (.inr ⟨rfl, hfirst⟩), Chars.not_mem_of_mem_splitAt, .inr hlast⟩
  · cases h
    exact ⟨htext [] t, .inl rfl, Chars.not_mem_of_mem_splitAt, .inr rfl⟩

theorem getLast?_splitAt (hbase : IsBase base) (hname : '/' ∉ name) :
    (Chars.splitAt '/' (base ++ name)).getLast? = some name := by
  rcases hbase with rfl | ⟨a, rfl⟩
  · rw [List.nil_append, Chars.splitAt_of_not_mem hname]
    rfl
  · rw [List.append_assoc, List.singleton_append, Chars.splitAt_append,
      Chars.splitAt_of_not_mem hname, List.getLast?_concat]

theorem descends_ancestors (t : FileTree) (h : Splits path.toList base name [])
    (hrefusal : refusal? path = none) (hplain : IsPlain (cut base))
    (hfits : Fits (names (cut base))) :
    Descends t (t.start path) (Path.ancestors path).tail (t.start path ++ names (cut base)) := by
  obtain ⟨head, ps, hsplit⟩ : ∃ head ps, Path.headAndPieces path.toList = (head, ps) := ⟨_, _, rfl⟩
  obtain ⟨htext, hhead, hslash, hlast⟩ := headAndPieces_spec hsplit
  have hpath : path.toList = base ++ name := by rw [h.eq, List.append_nil]
  have hdot : path.toList ≠ ['.'] := by
    intro hdot
    have hcut := h.names_cut
    rw [hdot] at hcut
    simp [cut, Chars.splitAt, names] at hcut
  rw [or_iff_right hdot, hpath, getLast?_splitAt h.isBase h.slash,
    List.getLast?_eq_some_iff] at hlast
  obtain ⟨above, rfl⟩ := hlast
  rw [List.reverse_append, List.reverse_singleton, List.singleton_append] at htext hhead
  have hcut : cut (pathText head above.reverse) = cut base := by
    have hwhole := cut_pathText_cons hhead
    rw [htext, hpath, h.isBase.cut_append] at hwhole
    exact (List.append_cancel_right hwhole).symm
  have htail : (Path.ancestors path).tail = Path.ancestorsFrom head above.reverse := by
    rw [Path.ancestors, hsplit]
    simp [Path.ancestorsFrom, h.counts]
  rw [htail, ← hcut]
  rw [← hcut] at hplain hfits
  refine descends_ancestorsFrom hhead.of_cons (fun x hx => hslash x ?_) ?_ hrefusal hplain hfits
  · simp [List.mem_reverse.mp hx]
  · rw [← htext]
    exact pathText_above head name above.reverse

end HostReach.FileTree
