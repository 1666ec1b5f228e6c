import HostReach.Proofs.FileTree.Kind

/-!
Where paths lead. A path without double dots leads to the names in it, and what is done through it
depends on what stands at that place and above it. With double dots a path leads through
directories, which stay where they are when a tree only grows.
-/
namespace HostReach.FileTree

def names (pieces : List Name) : Place := pieces.filter (· ≠ ['.'])

/-- No piece goes up. -/
def IsPlain (pieces : List Name) : Prop := ['.', '.'] ∉ pieces

def Fits (p : Place) : Prop := ∀ x ∈ p, isTooLong x = false

instance : DecidablePred Fits := fun p => inferInstanceAs (Decidable (∀ x ∈ p, isTooLong x = false))

variable {root root' n n' m : Node} {above p q : Place} {ps qs : List Name} {x : Name}
    {es : Entries}

@[simp] theorem names_nil : names [] = [] := rfl

theorem names_dot (ps : List Name) : names (['.'] :: ps) = names ps := rfl

theorem names_cons (hx : x ≠ ['.']) (ps : List Name) : names (x :: ps) = x :: names ps :=
  List.filter_cons_of_pos (by simp [hx])

theorem names_append (ps qs : List Name) : names (ps ++ qs) = names ps ++ names qs :=
  List.filter_append ps qs

theorem IsPlain.cons (h : IsPlain (x :: ps)) : x ≠ ['.', '.'] ∧ IsPlain ps :=
  ⟨fun heq => h (by simp [heq]), fun hmem => h (List.mem_cons_of_mem x hmem)⟩

theorem isPlain_append : IsPlain (ps ++ qs) ↔ IsPlain ps ∧ IsPlain qs := by
  simp [IsPlain]

theorem fits_cons {p : Place} : Fits (x :: p) ↔ isTooLong x = false ∧ Fits p := by
  simp [Fits]

theorem fits_append {p q : Place} : Fits (p ++ q) ↔ Fits p ∧ Fits q := by
  simp [Fits, or_imp, forall_and]

theorem eq_dot_of_names_eq_nil (h : names ps = []) : ∀ x ∈ ps, x = ['.'] := by
  simpa [names] using h

theorem getLast?_of_names_eq_nil (h : names (x :: ps) = []) : (x :: ps).getLast? = some ['.'] := by
  have hall := eq_dot_of_names_eq_nil h
  rw [List.getLast?_eq_some_getLast (List.cons_ne_nil x ps), hall _ (List.getLast_mem _)]

theorem walk_file {content : List UInt8} :
    walk root above (.file content) (x :: ps) = .error .notDirectory := rfl

theorem walk_dot :
    walk root above (.directory es) (['.'] :: ps) = walk root above (.directory es) ps := by
  simp [walk]

theorem walk_up : walk root above (.directory es) (['.', '.'] :: ps) =
    walk root above.tail ((root.at? above.tail.reverse).getD root) ps := by
  simp [walk]

theorem walk_name (hdot : x ≠ ['.']) (hup : x ≠ ['.', '.']) (hfits : isTooLong x = false) :
    walk root above (.directory es) (x :: ps) =
      match es.find? x with
      | none => .error .notFound
      | some n => walk root (x :: above) n ps := by
  cases hfind : es.find? x <;> simp [walk, hdot, hup, hfits, hfind]

theorem walk_tooLong (hdot : x ≠ ['.']) (hup : x ≠ ['.', '.']) (hlong : isTooLong x = true) :
    walk root above (.directory es) (x :: ps) = .error .nameTooLong := by
  simp [walk, hdot, hup, hlong]

def IsStep (x : Name) : Prop := x ≠ ['.'] ∧ x ≠ ['.', '.'] ∧ isTooLong x = false

theorem walk_cons_eq_ok {r : Place × Node} :
    walk root above n (x :: ps) = .ok r ↔ ∃ es, n = .directory es ∧
      ((x = ['.'] ∧ walk root above n ps = .ok r) ∨
        (x = ['.', '.'] ∧
          walk root above.tail ((root.at? above.tail.reverse).getD root) ps = .ok r) ∨
        IsStep x ∧ ∃ m, es.find? x = some m ∧ walk root (x :: above) m ps = .ok r) := by
  cases n with
  | file content => simp [walk_file]
  | directory es =>
    simp only [Node.directory.injEq, exists_eq_left']
    by_cases hdot : x = ['.']
    · simp [hdot, walk_dot, IsStep]
    · by_cases hup : x = ['.', '.']
      · simp [hup, walk_up, IsStep]
      · cases hlong : isTooLong x with
        | true => simp [hdot, hup, hlong, walk_tooLong hdot hup hlong, IsStep]
        | false =>
          rw [walk_name hdot hup hlong]
          cases es.find? x <;> simp [hdot, hup, hlong, IsStep]

/-- A walk goes down by the names, which must all be there. Behind a file not even a dot may
follow. -/
theorem walk_eq_ok (hplain : IsPlain ps) :
    walk root above n ps = .ok (p, m) ↔
    p = above.reverse ++ names ps ∧ n.at? (names ps) = some m ∧ Fits (names ps) ∧
      (m.kind = .directory ∨ ps.getLast? ≠ some ['.']) := by
  induction ps generalizing above n with
  | nil =>
    simp only [walk, names_nil, Node.at?, List.append_nil, Except.ok.injEq, Prod.mk.injEq,
      Option.some.injEq]
    constructor
    · rintro ⟨rfl, rfl⟩
      exact ⟨rfl, rfl, by simp [Fits], .inr (by simp)⟩
    · rintro ⟨rfl, rfl, -⟩
      exact ⟨rfl, rfl⟩
  | cons x ps ih =>
    obtain ⟨hup, hrest⟩ := hplain.cons
    cases n with
    | file content =>
      rw [walk_file]
      refine iff_of_false (by simp) ?_
      rintro ⟨-, hat, -, hlast⟩
      cases hnames : names (x :: ps) with
      | cons y p =>
        rw [hnames] at hat
        cases hat
      | nil =>
        rw [hnames] at hat
        cases hat
        rw [getLast?_of_names_eq_nil hnames] at hlast
        simp [Node.kind] at hlast
    | directory es =>
      by_cases hdot : x = ['.']
      · subst hdot
        rw [walk_dot, ih hrest, names_dot]
        cases ps with
        | nil =>
          simp only [names_nil, Node.at?, Option.some.injEq]
          constructor
          · rintro ⟨hp, rfl, hfits, -⟩
            exact ⟨hp, rfl, hfits, .inl rfl⟩
          · rintro ⟨hp, rfl, hfits, -⟩
            exact ⟨hp, rfl, hfits, .inl rfl⟩
        | cons y ps => rw [List.getLast?_cons_cons]
      · rw [names_cons hdot, fits_cons]
        have hlast : (x :: ps).getLast? ≠ some ['.'] ↔ ps.getLast? ≠ some ['.'] := by
          cases ps with
          | nil => simp [hdot]
          | cons y ps => rw [List.getLast?_cons_cons]
        cases hlong : isTooLong x with
        | true => simp [walk_tooLong hdot hup hlong]
        | false =>
          rw [walk_name hdot hup hlong, Node.at?, hlast]
          cases es.find? x with
          | none => simp
          | some n => simp [ih hrest]

theorem walk_missing (hplain : IsPlain ps) (hfits : Fits (names ps))
    (hn : root.at? above.reverse = some n)
    (habove : ∀ q, q <+: names ps → root.kind? (above.reverse ++ q) = none ∨
      root.kind? (above.reverse ++ q) = some .directory)
    (hmissing : root.kind? (above.reverse ++ names ps) = none) :
    walk root above n ps = .error .notFound := by
  have hkind (s : Place) : root.kind? (above.reverse ++ s) = n.kind? s := by
    rw [Node.kind?, Node.at?_append, hn, Option.bind_some, Node.kind?]
  induction ps generalizing above n with
  | nil =>
    rw [hkind] at hmissing
    cases hmissing
  | cons x ps ih =>
    obtain ⟨hup, hrest⟩ := hplain.cons
    have hdirectory := habove [] List.nil_prefix
    rw [hkind, Node.kind?, Node.at?, Option.map_some] at hdirectory
    cases n with
    | file content => simp [Node.kind] at hdirectory
    | directory es =>
      by_cases hdot : x = ['.']
      · subst hdot
        rw [walk_dot]
        exact ih hrest hfits hn habove hmissing hkind
      · rw [names_cons hdot] at hfits habove hmissing
        obtain ⟨hlong, hfits⟩ := fits_cons.mp hfits
        rw [walk_name hdot hup hlong]
        cases hfind : es.find? x with
        | none => rfl
        | some m =>
          have hm : root.at? (x :: above).reverse = some m := by
            rw [List.reverse_cons, Node.at?_append, hn, Option.bind_some, Node.at?, hfind]
            rfl
          refine ih hrest hfits hm (fun q hq => ?_) ?_ fun s => ?_
          · have hbelow := habove (x :: q) (List.cons_prefix_cons.mpr ⟨rfl, hq⟩)
            rwa [List.reverse_cons, List.append_assoc]
          · rwa [List.reverse_cons, List.append_assoc]
          · rw [Node.kind?, Node.at?_append, hm, Option.bind_some, Node.kind?]

theorem at?_of_part (hn : root.at? q = some n) (hpq : p <+: q) : ∃ m, root.at? p = some m := by
  obtain ⟨s, rfl⟩ := hpq
  rw [Node.at?_append] at hn
  obtain ⟨m, hm, -⟩ := Option.bind_eq_some_iff.mp hn
  exact ⟨m, hm⟩

theorem reverse_tail_above (p : Place) : p.tail.reverse <+: p.reverse := by
  cases p with
  | nil => exact List.prefix_rfl
  | cons x p => exact ⟨[x], by simp⟩

theorem at?_reverse_cons (hn : root.at? above.reverse = some (.directory es)) (x : Name) :
    root.at? (x :: above).reverse = es.find? x := by
  rw [List.reverse_cons, Node.at?_append, hn, Option.bind_some, Node.at?]
  cases es.find? x <;> rfl

theorem at?_of_walk (hn : root.at? above.reverse = some n)
    (hwalk : walk root above n ps = .ok (p, m)) :
    root.at? p = some m := by
  induction ps generalizing above n with
  | nil =>
    cases hwalk
    exact hn
  | cons x ps ih =>
    obtain ⟨es, rfl, ⟨-, hrest⟩ | ⟨-, hrest⟩ | ⟨-, n', hfind, hrest⟩⟩ := walk_cons_eq_ok.mp hwalk
    · exact ih hn hrest
    · obtain ⟨m', hm'⟩ := at?_of_part hn (reverse_tail_above above)
      rw [hm', Option.getD_some] at hrest
      exact ih hm' hrest
    · exact ih ((at?_reverse_cons hn x).trans hfind) hrest

theorem kind_of_walk (hwalk : walk root above n ps = .ok (p, .directory es)) :
    n.kind = .directory := by
  cases n with
  | directory es' => rfl
  | file content => cases ps <;> cases hwalk

theorem exists_entries_of_kind (h : n.kind = .directory) : ∃ es, n = .directory es := by
  cases n with
  | directory es => exact ⟨es, rfl⟩
  | file content => cases h

theorem kind?_of_at? (h : root.at? p = some n) : root.kind? p = some n.kind := by
  rw [Node.kind?, h, Option.map_some]

theorem walk_of_directories_stay
    (hstay : ∀ q, root.kind? q = some .directory → root'.kind? q = some .directory)
    (hn : root.at? above.reverse = some n) (hn' : root'.at? above.reverse = some n')
    (hwalk : walk root above n ps = .ok (p, .directory es)) :
    ∃ es', walk root' above n' ps = .ok (p, .directory es') := by
  have hdirectory {q : Place} {m m' : Node} (hm : root.at? q = some m) (hm' : root'.at? q = some m')
      (hkind : m.kind = .directory) : m'.kind = .directory := by
    have hstays := hstay q (by rw [kind?_of_at? hm, hkind])
    rw [kind?_of_at? hm'] at hstays
    exact Option.some.inj hstays
  induction ps generalizing above n n' with
  | nil =>
    cases hwalk
    obtain ⟨es', rfl⟩ := exists_entries_of_kind (hdirectory hn hn' rfl)
    exact ⟨es', rfl⟩
  | cons x ps ih =>
    obtain ⟨es₁, rfl, hnext⟩ := walk_cons_eq_ok.mp hwalk
    obtain ⟨es₁', rfl⟩ := exists_entries_of_kind (hdirectory hn hn' rfl)
    suffices ∃ es', _ from this.imp fun es' h => walk_cons_eq_ok.mpr ⟨es₁', rfl, h⟩
    rcases hnext with ⟨hx, hrest⟩ | ⟨hx, hrest⟩ | ⟨hx, m, hfind, hrest⟩
    · exact (ih hn hn' hrest).imp fun _ h => .inl ⟨hx, h⟩
    · obtain ⟨m, hm⟩ := at?_of_part hn (reverse_tail_above above)
      obtain ⟨m', hm'⟩ := at?_of_part hn' (reverse_tail_above above)
      rw [hm, Option.getD_some] at hrest
      refine (ih hm hm' hrest).imp fun _ h => .inr (.inl ⟨hx, ?_⟩)
      rwa [hm', Option.getD_some]
    · -- The walk goes on from the entry, so it is a directory, and stays one.
      have hm := (at?_reverse_cons hn x).trans hfind
      have hstays := hstay (x :: above).reverse (by rw [kind?_of_at? hm, kind_of_walk hrest])
      rw [Node.kind?, at?_reverse_cons hn' x] at hstays
      obtain ⟨m', hm', -⟩ := Option.map_eq_some_iff.mp hstays
      exact (ih hm ((at?_reverse_cons hn' x).trans hm') hrest).imp fun _ h =>
        .inr (.inr ⟨hx, m', hm', h⟩)

theorem walk_append_singleton (hx : IsStep x)
    (hwalk : walk root above n ps = .ok (p, .directory es)) (hfind : es.find? x = some m) :
    walk root above n (ps ++ [x]) = .ok (p ++ [x], m) := by
  induction ps generalizing above n with
  | nil =>
    cases hwalk
    exact walk_cons_eq_ok.mpr ⟨es, rfl, .inr (.inr ⟨hx, m, hfind, by rw [walk, List.reverse_cons]⟩)⟩
  | cons y ps ih =>
    obtain ⟨es₁, rfl, hnext⟩ := walk_cons_eq_ok.mp hwalk
    refine walk_cons_eq_ok.mpr ⟨es₁, rfl, ?_⟩
    rcases hnext with ⟨hy, hrest⟩ | ⟨hy, hrest⟩ | ⟨hy, m', hfind', hrest⟩
    · exact .inl ⟨hy, ih hrest⟩
    · exact .inr (.inl ⟨hy, ih hrest⟩)
    · exact .inr (.inr ⟨hy, m', hfind', ih hrest⟩)

end HostReach.FileTree
