import HostReach.FileTree.Operation

/-!
A tree seen as what stands at each place: nothing, a directory, or a file with its content. Putting
an entry and removing a file change one place and leave all others as they are.
-/
namespace HostReach.FileTree

inductive Kind where
  | directory
  | file (content : List UInt8)
  deriving DecidableEq, Repr

def Node.kind : Node → Kind
  | .directory _ => .directory
  | .file content => .file content

def Node.kind? (p : Place) (n : Node) : Option Kind := (n.at? p).map Node.kind

def kind? (t : FileTree) (p : Place) : Option Kind := t.root.kind? p

variable {t : FileTree} {n root : Node} {es : Entries} {x : Name} {p q xs : Place}
    {content : List UInt8}

theorem kind?_eq_none : t.kind? p = none ↔ t.at? p = none := Option.map_eq_none_iff

theorem kind?_eq_file : t.kind? p = some (.file content) ↔ t.at? p = some (.file content) := by
  unfold kind? Node.kind? at?
  cases t.root.at? p with
  | none => simp
  | some n => cases n <;> simp [Node.kind]

theorem kind?_eq_directory : t.kind? p = some .directory ↔
    ∃ es, t.at? p = some (.directory es) := by
  unfold kind? Node.kind? at?
  cases t.root.at? p with
  | none => simp
  | some n => cases n <;> simp [Node.kind]

theorem Node.at?_cons (x : Name) (p : Place) (n : Node) :
    n.at? (x :: p) = (n.at? [x]).bind (Node.at? p) := by
  cases n with
  | file content => rfl
  | directory es =>
    simp only [at?]
    cases es.find? x <;> rfl

theorem Node.at?_append (p q : Place) (n : Node) :
    n.at? (p ++ q) = (n.at? p).bind (Node.at? q) := by
  induction p generalizing n with
  | nil => rfl
  | cons x p ih =>
    rw [List.cons_append, at?_cons, at?_cons x p]
    cases n.at? [x] with
    | none => rfl
    | some m => exact ih m

theorem at?_append (p q : Place) : t.at? (p ++ q) = (t.at? p).bind (Node.at? q) :=
  t.root.at?_append p q

theorem at?_append_singleton (h : t.at? p = some (.directory es))
    (x : Name) : t.at? (p ++ [x]) = es.find? x := by
  rw [at?_append, h, Option.bind_some, Node.at?]
  cases es.find? x <;> rfl

theorem kind?_of_append (h : t.kind? (p ++ q) ≠ none)
    (hq : q ≠ []) : t.kind? p = some .directory := by
  rw [kind?_eq_directory]
  rw [ne_eq, kind?_eq_none, at?_append] at h
  cases hp : t.at? p with
  | none => simp [hp] at h
  | some n =>
    cases n with
    | directory es => exact ⟨es, rfl⟩
    | file content =>
      cases q with
      | nil => exact absurd rfl hq
      | cons x q => simp [hp, Node.at?] at h

theorem kind?_of_part (h : t.kind? q ≠ none) (hpq : p <+: q)
    (hne : p ≠ q) : t.kind? p = some .directory := by
  obtain ⟨s, rfl⟩ := hpq
  refine kind?_of_append h ?_
  rintro rfl
  exact hne (List.append_nil p).symm

theorem kind?_above (h : t.kind? p = some .directory)
    (hq : q <+: p) : t.kind? q = some .directory := by
  by_cases hne : q = p
  · rw [hne, h]
  · exact kind?_of_part (by simp [h]) hq hne

theorem Node.kind?_modify_append (f : Entries → Entries)
    (h : root.at? xs = some (.directory es)) (s : Place) :
    (root.modify f xs).kind? (xs ++ s) = (directory (f es)).kind? s := by
  induction xs generalizing root with
  | nil =>
    cases h
    rfl
  | cons x xs ih =>
    cases root with
    | file content => cases h
    | directory es' =>
      obtain ⟨n, hn, h⟩ := Option.bind_eq_some_iff.mp h
      have htail := ih h
      unfold kind? at htail ⊢
      simp only [modify, hn, List.cons_append, at?, Entries.find?_put_same, Option.bind_some, htail]

theorem Node.kind?_modify_of_not_prefix (f : Entries → Entries)
    (h : root.at? xs = some (.directory es)) (hq : ¬xs <+: q) :
    (root.modify f xs).kind? q = root.kind? q := by
  induction xs generalizing root q with
  | nil => exact absurd q.nil_prefix hq
  | cons x xs ih =>
    cases root with
    | file content => cases h
    | directory es' =>
      obtain ⟨n, hn, hbelow⟩ := Option.bind_eq_some_iff.mp h
      unfold kind? at ih ⊢
      cases q with
      | nil => simp only [modify, hn, at?, Option.map_some, kind]
      | cons y q =>
        by_cases hy : y = x
        · subst hy
          have hrest : ¬xs <+: q := fun hpart => hq (List.cons_prefix_cons.mpr ⟨rfl, hpart⟩)
          simp only [modify, hn, at?, Entries.find?_put_same, Option.bind_some, ih hbelow hrest]
        · simp only [modify, hn, at?, Entries.find?_put_other hy]

def Node.IsLeaf (n : Node) : Prop := ∀ y p, n.at? (y :: p) = none

theorem Node.isLeaf_file (content : List UInt8) : (Node.file content).IsLeaf := fun _ _ => rfl

theorem Node.isLeaf_empty : (Node.directory .nil).IsLeaf := fun _ _ => rfl

theorem kind?_below (h : t.kind? p ≠ some .directory) (x : Name)
    (s : Place) : t.kind? (p ++ x :: s) = none := by
  cases hbelow : t.kind? (p ++ x :: s) with
  | none => rfl
  | some k => exact absurd (kind?_of_append (q := x :: s) (by simp [hbelow]) (by simp)) h

theorem kind?_append (h : t.at? p = some n) (s : Place) : t.kind? (p ++ s) = n.kind? s := by
  unfold kind? Node.kind?
  rw [Node.at?_append, show t.root.at? p = some n from h, Option.bind_some]

theorem kind?_modify {f : Entries → Entries} (hes : t.at? xs = some (.directory es))
    (hother : ∀ y, y ≠ x → (f es).find? y = es.find? y)
    (hold : t.kind? (xs ++ [x]) ≠ some .directory)
    (hleaf : ∀ m, (f es).find? x = some m → m.IsLeaf) (q : Place) :
    (FileTree.mk (t.root.modify f xs) t.current).kind? q =
      if q = xs ++ [x] then ((f es).find? x).map Node.kind else t.kind? q := by
  by_cases hpart : xs <+: q
  · obtain ⟨s, rfl⟩ := hpart
    rw [kind?, Node.kind?_modify_append _ hes, kind?_append hes]
    cases s with
    | nil => simp [Node.kind?, Node.at?, Node.kind]
    | cons y s =>
      rw [Node.kind?, Node.kind?, Node.at?, Node.at?]
      by_cases hy : y = x
      · subst hy
        cases s with
        | nil => cases (f es).find? y <;> simp [Node.at?]
        | cons z s =>
          have hnone := kind?_below hold z s
          rw [List.append_assoc, kind?_append hes, Node.kind?, List.singleton_append,
            Node.at?] at hnone
          cases hfind : (f es).find? y with
          | none => simp [hnone]
          | some m => simp [hnone, hleaf m hfind z s]
      · simp [hother y hy, hy]
  · rw [kind?, Node.kind?_modify_of_not_prefix _ hes hpart,
      if_neg (fun h => hpart ⟨[x], h.symm⟩), kind?]

theorem kind?_put (hdirectory : t.kind? xs = some .directory)
    (hold : t.kind? (xs ++ [x]) ≠ some .directory) (hn : n.IsLeaf) (q : Place) :
    (t.put (xs ++ [x]) n).kind? q = if q = xs ++ [x] then some n.kind else t.kind? q := by
  obtain ⟨es, hes⟩ := kind?_eq_directory.mp hdirectory
  have hput : t.put (xs ++ [x]) n = ⟨t.root.modify (Entries.put x n) xs, t.current⟩ := by simp [put]
  have hleaf (m : Node) (hm : (es.put x n).find? x = some m) : m.IsLeaf := by
    rw [Entries.find?_put_same] at hm
    exact Option.some.inj hm ▸ hn
  rw [hput, kind?_modify hes (fun y hy => Entries.find?_put_other hy n es) hold hleaf,
    Entries.find?_put_same]
  rfl

theorem kind?_remove (hold : t.kind? (xs ++ [x]) = some (.file content)) (q : Place) :
    (t.remove (xs ++ [x])).kind? q = if q = xs ++ [x] then none else t.kind? q := by
  have hdirectory : t.kind? xs = some .directory :=
    kind?_of_append (by simp [hold]) (List.cons_ne_nil x [])
  obtain ⟨es, hes⟩ := kind?_eq_directory.mp hdirectory
  have hremove : t.remove (xs ++ [x]) = ⟨t.root.modify (Entries.remove x) xs, t.current⟩ := by
    simp [remove]
  have hnone : (es.remove x).find? x = none := Entries.find?_remove_same x es
  rw [hremove, kind?_modify hes (fun y hy => Entries.find?_remove_other hy es) (by simp [hold])
    (by simp [hnone]), hnone]
  rfl

theorem kind?_move (hfile : t.kind? p = some (.file content))
    (hdirectory : t.kind? xs = some .directory)
    (hold : t.kind? (xs ++ [x]) ≠ some .directory) (q : Place) :
    ((t.remove p).put (xs ++ [x]) (.file content)).kind? q =
      if q = xs ++ [x] then some (.file content) else if q = p then none else t.kind? q := by
  have hne : p ≠ [] := by
    rintro rfl
    have hroot := kind?_above hdirectory xs.nil_prefix
    rw [hfile] at hroot
    cases hroot
  obtain ⟨ys, y, rfl⟩ : ∃ ys y, p = ys ++ [y] := ⟨_, _, (List.dropLast_concat_getLast hne).symm⟩
  have hremove := kind?_remove hfile
  have hxs : xs ≠ ys ++ [y] := by
    rintro rfl
    rw [hfile] at hdirectory
    cases hdirectory
  have hold' : (t.remove (ys ++ [y])).kind? (xs ++ [x]) ≠ some .directory := by
    rw [hremove]
    split
    · simp
    · exact hold
  rw [kind?_put (by rwa [hremove, if_neg hxs]) hold' (Node.isLeaf_file content), hremove]
  rfl

@[simp] theorem current_put (t : FileTree) (p : Place)
    (n : Node) : (t.put p n).current = t.current := by
  unfold put
  split <;> rfl

@[simp] theorem current_remove (t : FileTree) (p : Place) : (t.remove p).current = t.current := by
  unfold remove
  split <;> rfl

end HostReach.FileTree
