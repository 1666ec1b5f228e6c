import HostReach.Proofs.FileTree.Walk
import Mathlib.Data.List.Basic

/-!
What the operations on a tree do when they succeed: which place a path leads to, and that nothing
changes at other places.
-/
namespace HostReach.FileTree

variable {t t' : FileTree} {path : String} {ps ups : List Name} {p q : Place} {n : Node}
    {o : Option Node}
  {es : Entries} {x : Name} {content old : List UInt8}

def start (t : FileTree) (path : String) : Place := if Path.isAbsolute path then [] else t.current

def place (t : FileTree) (path : String) : Place := t.start path ++ names (pieces path)

theorem start_of_current (h : t'.current = t.current)
    (path : String) : t'.start path = t.start path := by
  rw [start, start, h]

theorem place_of_current (h : t'.current = t.current) : t'.place path = t.place path := by
  rw [place, place, start_of_current h]

/-- The last piece counts, and no slash follows it. -/
def EndsInName (path : String) : Prop := (pieces path).getLast? ≠ some ['.'] ∧
    endsInSlash path = false

theorem follow_eq_walk (h : t.at? (t.start path) = some n) (ps : List Name) :
    t.follow path ps = walk t.root (t.start path).reverse n ps := by
  rw [start] at h
  rw [follow, h, start]

theorem exists_of_follow (h : t.follow path ps = .ok (p, n)) :
    ∃ m, t.at? (t.start path) = some m := by
  unfold follow at h
  rw [← start] at h
  cases hstart : t.at? (t.start path) with
  | none =>
    simp only [hstart] at h
    cases h
  | some m => exact ⟨m, rfl⟩

theorem follow_eq_ok (hplain : IsPlain ps) :
    t.follow path ps = .ok (p, n) ↔
    p = t.start path ++ names ps ∧ t.at? p = some n ∧ Fits (names ps) ∧
      (n.kind = .directory ∨ ps.getLast? ≠ some ['.']) := by
  cases hstart : t.at? (t.start path) with
  | none =>
    refine iff_of_false (fun h => ?_) ?_
    · obtain ⟨m, hm⟩ := exists_of_follow h
      rw [hstart] at hm
      cases hm
    · rintro ⟨rfl, hat, -⟩
      rw [at?_append, hstart] at hat
      cases hat
  | some m =>
    rw [follow_eq_walk hstart, walk_eq_ok hplain, List.reverse_reverse]
    refine and_congr_right fun hp => ?_
    rw [hp, at?_append, hstart, Option.bind_some]

theorem at?_of_follow (h : t.follow path ps = .ok (p, n)) : t.at? p = some n := by
  obtain ⟨m, hstart⟩ := exists_of_follow h
  rw [follow_eq_walk hstart] at h
  have hroot : t.root.at? (t.start path).reverse.reverse = some m := by rwa [List.reverse_reverse]
  exact at?_of_walk hroot h

theorem find_eq_ok_iff : t.find path = .ok (p, n) ↔
    refusal? path = none ∧ t.follow path (pieces path) = .ok (p, n) ∧
      (n.kind = .directory ∨ endsInSlash path = false) := by
  unfold find
  cases refusal? path with
  | some e => simp
  | none =>
    cases hfollow : t.follow path (pieces path) with
    | error e => simp
    | ok r =>
      obtain ⟨p', n'⟩ := r
      cases n' with
      | directory es =>
        simp only [Except.ok.injEq, Prod.mk.injEq, true_and]
        constructor
        · rintro ⟨hp, rfl⟩
          exact ⟨⟨hp, rfl⟩, .inl rfl⟩
        · rintro ⟨h, -⟩
          exact h
      | file content =>
        cases hslash : endsInSlash path with
        | false => simp
        | true =>
          simp only [if_true, reduceCtorEq, Except.ok.injEq, Prod.mk.injEq, true_and,
            false_iff, not_and]
          rintro ⟨-, rfl⟩
          simp [Node.kind]

theorem at?_of_find (h : t.find path = .ok (p, n)) : t.at? p = some n :=
  at?_of_follow (find_eq_ok_iff.mp h).2.1

theorem find_eq_ok (hplain : IsPlain (pieces path)) :
    t.find path = .ok (p, n) ↔ refusal? path = none ∧ p = t.place path ∧ t.at? p = some n ∧
      Fits (names (pieces path)) ∧ (n.kind = .directory ∨ EndsInName path) := by
  rw [find_eq_ok_iff, follow_eq_ok hplain, EndsInName, place]
  constructor
  · rintro ⟨hrefusal, ⟨hp, hat, hfits, hlast⟩, hslash⟩
    refine ⟨hrefusal, hp, hat, hfits, ?_⟩
    rcases hlast with hdirectory | hlast
    · exact .inl hdirectory
    · exact hslash.imp_right fun hslash => ⟨hlast, hslash⟩
  · rintro ⟨hrefusal, hp, hat, hfits, hends⟩
    exact ⟨hrefusal, ⟨hp, hat, hfits, hends.imp_right (·.1)⟩, hends.imp_right (·.2)⟩

theorem contents_eq_ok_iff : t.contents path = .ok content ↔
    ∃ p, t.find path = .ok (p, .file content) := by
  unfold contents
  cases hfind : t.find path with
  | error e => simp [bind, Except.bind]
  | ok r =>
    obtain ⟨p, n⟩ := r
    cases n <;> simp [bind, Except.bind]

theorem contents_eq_ok (hplain : IsPlain (pieces path)) :
    t.contents path = .ok content ↔
    refusal? path = none ∧ t.kind? (t.place path) = some (.file content) ∧
      Fits (names (pieces path)) ∧ EndsInName path := by
  simp only [contents_eq_ok_iff, find_eq_ok hplain, kind?_eq_file, Node.kind,
    reduceCtorEq, false_or]
  constructor
  · rintro ⟨p, hrefusal, rfl, hat, hfits, hends⟩
    exact ⟨hrefusal, hat, hfits, hends⟩
  · rintro ⟨hrefusal, hat, hfits, hends⟩
    exact ⟨_, hrefusal, rfl, hat, hfits, hends⟩

theorem isPresent_iff : t.isPresent path = true ↔ ∃ p n, t.find path = .ok (p, n) := by
  unfold isPresent
  cases t.find path with
  | error e => simp [Except.isOk, Except.toBool]
  | ok r => exact iff_of_true rfl ⟨r.1, r.2, rfl⟩

theorem isDirectory_iff : t.isDirectory path = true ↔
    ∃ p es, t.find path = .ok (p, .directory es) := by
  unfold isDirectory
  cases t.find path with
  | error e => simp
  | ok r =>
    obtain ⟨p, n⟩ := r
    cases n <;> simp

theorem target_of_directory (hrefusal : refusal? path = none) (hpieces : pieces path = ups ++ [x])
    (hfollow : t.follow path ups = .ok (p, .directory es)) :
    t.target path = if x = ['.'] ∨ x = ['.', '.'] then .ok none
      else if isTooLong x then .error .nameTooLong
      else .ok (some (p ++ [x], es.find? x)) := by
  simp [target, hrefusal, hpieces, hfollow]

theorem target_eq_ok : t.target path = .ok (some (q, o)) ↔ refusal? path = none ∧
    ∃ ups x p es, pieces path = ups ++ [x] ∧ IsStep x ∧ t.follow path ups = .ok (p, .directory es) ∧
      q = p ++ [x] ∧ o = es.find? x := by
  constructor
  · intro h
    cases hrefusal : refusal? path with
    | some e => simp [target, hrefusal] at h
    | none =>
      refine ⟨rfl, ?_⟩
      rcases List.eq_nil_or_concat' (pieces path) with hpieces | ⟨ups, x, hpieces⟩
      · simp [target, hrefusal, hpieces] at h
      cases hfollow : t.follow path ups with
      | error e => simp [target, hrefusal, hpieces, hfollow] at h
      | ok r =>
        obtain ⟨p, n⟩ := r
        cases n with
        | file content => simp [target, hrefusal, hpieces, hfollow] at h
        | directory es =>
          rw [target_of_directory hrefusal hpieces hfollow] at h
          split at h
          · cases h
          · next hdots =>
            split at h
            · cases h
            · next hlong =>
              cases h
              rw [not_or] at hdots
              exact ⟨ups, x, p, es, hpieces, ⟨hdots.1, hdots.2, by simpa using hlong⟩,
                hfollow, rfl, rfl⟩
  · rintro ⟨hrefusal, ups, x, p, es, hpieces, hstep, hfollow, rfl, rfl⟩
    rw [target_of_directory hrefusal hpieces hfollow,
      if_neg (not_or.mpr ⟨hstep.1, hstep.2.1⟩), hstep.2.2]
    rfl

theorem exists_of_target (h : t.target path = .ok (some (q, o))) :
    ∃ p x, q = p ++ [x] ∧ t.kind? p = some .directory ∧ t.at? q = o := by
  obtain ⟨-, ups, x, p, es, -, -, hfollow, rfl, rfl⟩ := target_eq_ok.mp h
  have hp := at?_of_follow hfollow
  exact ⟨p, x, rfl, kind?_eq_directory.mpr ⟨es, hp⟩, at?_append_singleton hp x⟩

/-- A path without double dots leads to a name in the directory at a place, where there is one. -/
structure LeadsTo (t : FileTree) (path : String) (p : Place) (x : Name) : Prop where
  refusal : refusal? path = none
  pieces : ∃ ups, pieces path = ups ++ [x] ∧ IsPlain ups ∧ Fits (names ups) ∧
    p = t.start path ++ names ups
  step : IsStep x

namespace LeadsTo

variable (h : LeadsTo t path p x)
include h

theorem plain : IsPlain (FileTree.pieces path) := by
  obtain ⟨ups, hpieces, hplain, -, -⟩ := h.pieces
  rw [hpieces, isPlain_append]
  exact ⟨hplain, by simpa [IsPlain] using Ne.symm h.step.2.1⟩

theorem place : t.place path = p ++ [x] := by
  obtain ⟨ups, hpieces, -, -, rfl⟩ := h.pieces
  rw [FileTree.place, hpieces, names_append, names_cons h.step.1, names_nil, List.append_assoc]

theorem fits : Fits (names (FileTree.pieces path)) := by
  obtain ⟨ups, hpieces, -, hfits, -⟩ := h.pieces
  rw [hpieces, names_append, names_cons h.step.1, names_nil, fits_append]
  exact ⟨hfits, by simpa [Fits] using h.step.2.2⟩

theorem getLast?_ne : (FileTree.pieces path).getLast? ≠ some ['.'] := by
  obtain ⟨ups, hpieces, -⟩ := h.pieces
  simpa [hpieces] using h.step.1

theorem of_current (hcurrent : t'.current = t.current) : LeadsTo t' path p x := by
  obtain ⟨ups, hpieces, hplain, hfits, hp⟩ := h.pieces
  exact ⟨h.refusal, ⟨ups, hpieces, hplain, hfits, by rw [hp, start_of_current hcurrent]⟩, h.step⟩

theorem target (hdirectory : t.kind? p = some .directory) :
    t.target path = .ok (some (p ++ [x], t.at? (p ++ [x]))) := by
  obtain ⟨ups, hpieces, hplain, hfits, rfl⟩ := h.pieces
  obtain ⟨es, hes⟩ := kind?_eq_directory.mp hdirectory
  have hfollow : t.follow path ups = .ok (t.start path ++ names ups, .directory es) :=
    (follow_eq_ok hplain).mpr ⟨rfl, hes, hfits, .inl rfl⟩
  refine target_eq_ok.mpr ⟨h.refusal, ups, x, _, es, hpieces, h.step, hfollow, rfl, ?_⟩
  rw [at?_append_singleton hes]

theorem target_missing (hstart : t.kind? (t.start path) = some .directory)
    (habove : ∀ q, q <+: p → t.kind? q = none ∨ t.kind? q = some .directory)
    (hmissing : t.kind? p = none) :
    t.target path = .error .notFound := by
  obtain ⟨ups, hpieces, hplain, hfits, rfl⟩ := h.pieces
  obtain ⟨es, hes⟩ := kind?_eq_directory.mp hstart
  have hfollow : t.follow path ups = .error .notFound := by
    rw [follow_eq_walk hes]
    refine walk_missing hplain hfits (by rwa [List.reverse_reverse]) (fun q hq => ?_)
      (by rwa [List.reverse_reverse])
    rw [List.reverse_reverse]
    exact habove _ ((List.prefix_append_right_inj _).mpr hq)
  unfold FileTree.target
  simp [h.refusal, hpieces, hfollow]

theorem isDirectory_iff : t.isDirectory path = true ↔ t.kind? (p ++ [x]) = some .directory := by
  rw [FileTree.isDirectory_iff, kind?_eq_directory, ← h.place]
  constructor
  · rintro ⟨q, es, hfind⟩
    obtain ⟨-, rfl, hat, -⟩ := (find_eq_ok h.plain).mp hfind
    exact ⟨es, hat⟩
  · rintro ⟨es, hat⟩
    exact ⟨_, es, (find_eq_ok h.plain).mpr ⟨h.refusal, rfl, hat, h.fits, .inl rfl⟩⟩

theorem isPresent_eq_false (hnone : t.kind? (p ++ [x]) = none) : t.isPresent path = false := by
  rw [← Bool.not_eq_true, isPresent_iff]
  rintro ⟨q, n, hfind⟩
  obtain ⟨-, rfl, hat, -⟩ := (find_eq_ok h.plain).mp hfind
  rw [h.place, kind?_eq_none.mp hnone] at hat
  cases hat

theorem find (hslash : endsInSlash path = false) (hn : t.at? (p ++ [x]) = some n) :
    t.find path = .ok (p ++ [x], n) :=
  (find_eq_ok h.plain).mpr ⟨h.refusal, h.place.symm, hn, h.fits, .inr ⟨h.getLast?_ne, hslash⟩⟩

theorem contents (hslash : endsInSlash path = false)
    (hcontent : t.kind? (p ++ [x]) = some (.file content)) :
    t.contents path = .ok content :=
  contents_eq_ok_iff.mpr ⟨_, h.find hslash (kind?_eq_file.mp hcontent)⟩

end LeadsTo

theorem exists_leadsTo (hplain : IsPlain (pieces path)) (h : t.target path = .ok (some (q, o))) :
    ∃ p x, LeadsTo t path p x ∧ q = p ++ [x] := by
  obtain ⟨hrefusal, ups, x, p, es, hpieces, hstep, hfollow, rfl, -⟩ := target_eq_ok.mp h
  rw [hpieces, isPlain_append] at hplain
  obtain ⟨hp, -, hfits, -⟩ := (follow_eq_ok hplain.1).mp hfollow
  exact ⟨p, x, ⟨hrefusal, ⟨ups, hpieces, hplain.1, hfits, hp⟩, hstep⟩, rfl⟩

theorem target_of_writable (h : t.writable path = .ok (q, old)) : endsInSlash path = false ∧
    ∃ o, t.target path = .ok (some (q, o)) ∧ ∀ es, o ≠ some (.directory es) := by
  unfold writable at h
  cases htarget : t.target path with
  | error e =>
    rw [htarget] at h
    cases h
  | ok r =>
    rw [htarget] at h
    cases hslash : endsInSlash path with
    | true => rcases r with _ | ⟨p, _ | (content | es)⟩ <;> simp [hslash, bind, Except.bind] at h
    | false =>
      rcases r with _ | ⟨p, _ | (content | es)⟩ <;> simp [hslash, bind, Except.bind] at h
      · exact ⟨rfl, none, by rw [h.1], by simp⟩
      · exact ⟨rfl, some (.file content), by rw [h.1], by simp⟩

theorem writable_of_target (hslash : endsInSlash path = false)
    (h : t.target path = .ok (some (q, o))) (ho : ∀ es, o ≠ some (.directory es)) :
    ∃ old, t.writable path = .ok (q, old) := by
  unfold writable
  rcases o with _ | (content | es)
  · exact ⟨[], by simp [h, hslash, bind, Except.bind]⟩
  · exact ⟨content, by simp [h, hslash, bind, Except.bind]⟩
  · exact absurd rfl (ho es)

theorem at?_ne_directory : t.kind? p ≠ some .directory ↔ ∀ es, t.at? p ≠ some (.directory es) := by
  rw [ne_eq, kind?_eq_directory, not_exists]

theorem follow_of_directories_stay
    (hstay : ∀ r, t.kind? r = some .directory → t'.kind? r = some .directory)
    (hcurrent : t'.current = t.current) (h : t.follow path ups = .ok (p, .directory es)) :
    ∃ es', t'.follow path ups = .ok (p, .directory es') := by
  obtain ⟨m, hm⟩ := exists_of_follow h
  have hstart := start_of_current hcurrent path
  rw [follow_eq_walk hm] at h
  have hstays := hstay (t.start path) ((kind?_of_at? hm).trans (congrArg some (kind_of_walk h)))
  obtain ⟨es', hm'⟩ := kind?_eq_directory.mp hstays
  rw [← hstart] at hm'
  rw [follow_eq_walk hm', hstart]
  rw [hstart] at hm'
  exact walk_of_directories_stay hstay (by rwa [List.reverse_reverse])
    (by rwa [List.reverse_reverse]) h

theorem follow_append_singleton (hstep : IsStep x) (h : t.follow path ups = .ok (p, .directory es))
    (hfind : es.find? x = some n) : t.follow path (ups ++ [x]) = .ok (p ++ [x], n) := by
  obtain ⟨m, hm⟩ := exists_of_follow h
  rw [follow_eq_walk hm] at h ⊢
  exact walk_append_singleton hstep h hfind

theorem find_of_target (htarget : t.target path = .ok (some (q, o)))
    (hslash : endsInSlash path = false)
    (hstay : ∀ r, t.kind? r = some .directory → t'.kind? r = some .directory)
    (hcurrent : t'.current = t.current) (hq : t'.at? q = some n) : t'.find path = .ok (q, n) := by
  obtain ⟨hrefusal, ups, x, p, es, hpieces, hstep, hfollow, rfl, -⟩ := target_eq_ok.mp htarget
  obtain ⟨es', hfollow'⟩ := follow_of_directories_stay hstay hcurrent hfollow
  have hfind : es'.find? x = some n := by rw [← at?_append_singleton (at?_of_follow hfollow') x, hq]
  refine find_eq_ok_iff.mpr ⟨hrefusal, ?_, .inr hslash⟩
  rw [hpieces]
  exact follow_append_singleton hstep hfollow' hfind

theorem writeFile_eq_ok (h : t.writeFile path content = .ok t') :
    ∃ p x, t' = t.put (p ++ [x]) (.file content) ∧
    (∃ o, t.target path = .ok (some (p ++ [x], o))) ∧ t.kind? p = some .directory ∧
    t.kind? (p ++ [x]) ≠ some .directory ∧ t'.find path = .ok (p ++ [x], .file content) := by
  unfold writeFile at h
  cases hwritable : t.writable path with
  | error e =>
    rw [hwritable] at h
    cases h
  | ok r =>
    rw [hwritable] at h
    cases h
    obtain ⟨q, old⟩ := r
    obtain ⟨hslash, o, htarget, ho⟩ := target_of_writable hwritable
    obtain ⟨p, x, rfl, hdirectory, rfl⟩ := exists_of_target htarget
    have hold : t.kind? (p ++ [x]) ≠ some .directory := at?_ne_directory.mpr ho
    have hkind := kind?_put hdirectory hold (Node.isLeaf_file content)
    refine ⟨p, x, rfl, ⟨_, htarget⟩, hdirectory, hold,
      find_of_target htarget hslash (fun r hr => ?_) (by simp) ?_⟩
    · rw [hkind, if_neg, hr]
      rintro rfl
      exact hold hr
    · rw [← kind?_eq_file, hkind, if_pos rfl]
      rfl

theorem writeFile_of_target (hslash : endsInSlash path = false)
    (h : t.target path = .ok (some (q, t.at? q))) (hq : t.kind? q ≠ some .directory)
    (content : List UInt8) :
    t.writeFile path content = .ok (t.put q (.file content)) := by
  obtain ⟨old, hwritable⟩ := writable_of_target hslash h (at?_ne_directory.mp hq)
  rw [writeFile, hwritable]
  rfl

theorem makeDirectory_eq_ok : t.makeDirectory path = .ok t' ↔
    ∃ q, t.target path = .ok (some (q, none)) ∧ t' = t.put q (.directory .nil) := by
  unfold makeDirectory
  cases htarget : t.target path with
  | error e => simp [bind, Except.bind]
  | ok r =>
    rcases r with _ | ⟨p, _ | n⟩
    · simp [bind, Except.bind]
    · simp [bind, Except.bind, eq_comm]
    · simp [bind, Except.bind]

variable {source destination : String}

theorem exists_of_renameFile (h : t.renameFile source destination = .ok t') : ∃ p content q o,
    t.find source = .ok (p, .file content) ∧ t.target destination = .ok (some (q, o)) ∧
      endsInSlash destination = false ∧ (∀ es, o ≠ some (.directory es)) ∧
      t' = (t.remove p).put q (.file content) := by
  unfold renameFile at h
  cases hfind : t.find source with
  | error e =>
    rw [hfind] at h
    cases h
  | ok r =>
    rw [hfind] at h
    rcases r with ⟨p, (content | es)⟩
    · cases htarget : t.target destination with
      | error e => simp [htarget, bind, Except.bind] at h
      | ok r =>
        cases hslash : endsInSlash destination with
        | true =>
          rcases r with _ | ⟨q, _ | (old | es)⟩ <;> simp [htarget, hslash, bind, Except.bind] at h
        | false =>
          rcases r with _ | ⟨q, _ | (old | es)⟩ <;> simp [htarget, hslash, bind, Except.bind] at h
          · exact ⟨p, content, q, none, rfl, rfl, rfl, by simp, h.symm⟩
          · exact ⟨p, content, q, some (.file old), rfl, rfl, rfl, by simp, h.symm⟩
    · cases h

theorem renameFile_eq_ok (h : t.renameFile source destination = .ok t') : ∃ p content q o,
    t.find source = .ok (p, .file content) ∧ t.target destination = .ok (some (q, o)) ∧
      endsInSlash destination = false ∧ t'.current = t.current ∧
      ∀ r, t'.kind? r = if r = q then some (.file content) else if r =
        p then none else t.kind? r := by
  obtain ⟨p, content, q, o, hfind, htarget, hslash, ho, rfl⟩ := exists_of_renameFile h
  obtain ⟨xs, x, rfl, hdirectory, rfl⟩ := exists_of_target htarget
  exact ⟨p, content, _, _, hfind, htarget, hslash, by simp,
    kind?_move (kind?_eq_file.mpr (at?_of_find hfind)) hdirectory (at?_ne_directory.mpr ho)⟩

theorem renameFile_of_target (hfind : t.find source = .ok (p, .file content))
    (htarget : t.target destination = .ok (some (q, o))) (hslash : endsInSlash destination = false)
    (ho : ∀ es, o ≠ some (.directory es)) :
    t.renameFile source destination = .ok ((t.remove p).put q (.file content)) := by
  unfold renameFile
  rcases o with _ | (old | es)
  · simp [hfind, htarget, hslash, bind, Except.bind]
  · simp [hfind, htarget, hslash, bind, Except.bind]
  · exact absurd rfl (ho es)

/-- A file that is written beside a place and moved there. -/
theorem exists_replaced {y : Name} (hsource : LeadsTo t source p y)
    (hsourceSlash : endsInSlash source = false) (hdestination : LeadsTo t destination p x)
    (hslash : endsInSlash destination = false) (hne : y ≠ x)
    (hdirectory : t.kind? p = some .directory) (hsourceFree : t.kind? (p ++ [y]) ≠ some .directory)
    (hfree : t.kind? (p ++ [x]) ≠ some .directory) (content : List UInt8) :
    ∃ u v, t.writeFile source content = .ok u ∧ u.renameFile source destination = .ok v ∧
    v.current = t.current ∧
      ∀ q, v.kind? q =
        if q = p ++ [x] then some (.file content) else if q = p ++ [y] then none
        else t.kind? q := by
  obtain ⟨u, hu⟩ : ∃ u, u = t.put (p ++ [y]) (.file content) := ⟨_, rfl⟩
  have hwrite : t.writeFile source content = .ok u :=
    hu ▸ writeFile_of_target hsourceSlash (hsource.target hdirectory) hsourceFree content
  have hcurrent : u.current = t.current := by rw [hu, current_put]
  have hwritten (q : Place) : u.kind? q = if q =
      p ++ [y] then some (.file content) else t.kind? q :=
    hu ▸ kind?_put hdirectory hsourceFree (Node.isLeaf_file content) q
  have hfile : u.kind? (p ++ [y]) = some (.file content) := by rw [hwritten, if_pos rfl]
  have hstays : u.kind? p = some .directory := by rw [hwritten, if_neg (by simp), hdirectory]
  have hstaysFree : u.kind? (p ++ [x]) ≠ some .directory := by
    rwa [hwritten, if_neg (by simpa using Ne.symm hne)]
  have hfind := (hsource.of_current hcurrent).find hsourceSlash (kind?_eq_file.mp hfile)
  have htarget := (hdestination.of_current hcurrent).target hstays
  have hrename := renameFile_of_target hfind htarget hslash (at?_ne_directory.mp hstaysFree)
  refine ⟨u, _, hwrite, hrename, by rw [current_put, current_remove, hcurrent], fun q => ?_⟩
  rw [kind?_move hfile hstays hstaysFree, hwritten]
  by_cases hq : q = p ++ [y] <;> simp [hq]

/-- Beside some places no file comes, goes or changes, and every directory stays. -/
structure Spares (t t' : FileTree) (changed : Place → Prop) : Prop where
  file : ∀ p, ¬changed p → ∀ content, t'.kind? p = some (.file content) ↔
    t.kind? p = some (.file content)
  directory : ∀ p, t.kind? p = some .directory → t'.kind? p = some .directory
  current : t'.current = t.current

variable {changed : Place → Prop}

theorem Spares.refl (t : FileTree) (changed : Place → Prop) : Spares t t changed :=
  ⟨fun _ _ _ => Iff.rfl, fun _ h => h, rfl⟩

theorem Spares.trans {t'' : FileTree} (h : Spares t t' changed) (h' : Spares t' t'' changed) :
    Spares t t'' changed where
  file p hp content := (h'.file p hp content).trans (h.file p hp content)
  directory p hp := h'.directory p (h.directory p hp)
  current := h'.current.trans h.current

theorem Spares.mono {others : Place → Prop} (h : Spares t t' changed)
    (hothers : ∀ p, changed p → others p) :
    Spares t t' others where
  file p hp := h.file p fun hchanged => hp (hothers p hchanged)
  directory := h.directory
  current := h.current

theorem spares_put_directory (hdirectory : t.kind? p = some .directory)
    (hnone : t.kind? (p ++ [x]) = none) :
    Spares t (t.put (p ++ [x]) (.directory .nil)) fun _ => False := by
  have hkind := kind?_put (x := x) hdirectory (by simp [hnone]) Node.isLeaf_empty
  constructor
  · intro q _ content
    rw [hkind]
    split
    · next hq => simp [hq, hnone, Node.kind]
    · rfl
  · intro q hq
    rw [hkind]
    split
    · rfl
    · exact hq
  · simp

theorem spares_put_file (hdirectory : t.kind? p = some .directory)
    (hold : t.kind? (p ++ [x]) ≠ some .directory) (content : List UInt8) :
    Spares t (t.put (p ++ [x]) (.file content)) (· = p ++ [x]) := by
  have hkind := kind?_put hdirectory hold (Node.isLeaf_file content)
  constructor
  · intro q hq content'
    rw [hkind, if_neg hq]
  · intro q hq
    rw [hkind, if_neg, hq]
    rintro rfl
    exact hold hq
  · simp

theorem spares_makeDirectory (h : t.makeDirectory path = .ok t') : Spares t t' fun _ => False := by
  obtain ⟨q, htarget, rfl⟩ := makeDirectory_eq_ok.mp h
  obtain ⟨p, x, rfl, hdirectory, hnone⟩ := exists_of_target htarget
  exact spares_put_directory hdirectory (kind?_eq_none.mpr hnone)

theorem spares_makeDirectories (paths : List String) (t : FileTree) :
    Spares t (t.makeDirectories paths).1 fun _ => False := by
  induction paths with
  | nil => exact .refl t _
  | cons path above ih =>
    rw [makeDirectories]
    split
    · next hmake => exact spares_makeDirectory hmake
    · split
      · next habove => rwa [habove] at ih
      · next habove =>
        rw [habove] at ih
        split
        · next hmake => exact ih.trans (spares_makeDirectory hmake)
        · exact ih
    · exact .refl t _

end HostReach.FileTree
