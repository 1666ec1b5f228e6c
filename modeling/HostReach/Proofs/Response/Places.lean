import HostReach.Proofs.Response.Template
import HostReach.Text.Search
import Mathlib.Algebra.Order.BigOperators.Group.List
import Mathlib.Algebra.Order.Ring.Nat

/-!
Templates as literal pieces with places between them. Every percent sign uses up a flag, also one
that begins no place, so a place gets the flag whose number is that of the percent signs before it.
The flags go to the places in order just where no literal piece before the last place holds a
percent sign.
-/
namespace HostReach.ResultCode

inductive Place where
  | s
  | v

def Place.chars : Place → List Char
  | .s => ['%', 's']
  | .v => ['%', 'v']

instance (P : Place → Prop) [DecidablePred P] : Decidable (∀ p, P p) :=
  decidable_of_iff (P .s ∧ P .v) ⟨fun ⟨hs, hv⟩ p => p.casesOn hs hv, fun h => ⟨h .s, h .v⟩⟩

/-- Text without a place. A percent sign may stand in it, but neither `s` nor `v` behind it. -/
structure Literal where
  chars : List Char
  noPlace : ∀ p : Place, Chars.occursIn p.chars chars = false

structure Pieces where
  first : Literal
  rest : List (Place × Literal)

namespace Pieces

/-- The literal pieces with a text for each place between them, which depends on the number of the
place. -/
def write (t : Pieces) (f : Nat → Place → List Char) : List Char :=
  t.first.chars ++ (t.rest.mapIdx fun i piece => f i piece.1 ++ piece.2.chars).flatten

def text (t : Pieces) : List Char := t.write fun _ p => p.chars

def literals (t : Pieces) : List Literal := t.first :: t.rest.map (·.2)

/-- The percent signs before a place: one for each place before it, and those in the literal pieces
before it. -/
def signsBefore (t : Pieces) (i : Nat) : Nat :=
  i + ((t.literals.take (i + 1)).map fun l => l.chars.count '%').sum

end Pieces

/-- What stands in a place that gets the flag of a number: that flag, or the place if there are not
so many. -/
def filling (flags : List String) (i : Nat) (p : Place) : List Char :=
  (flags[i]?.map String.toList).getD p.chars

theorem fill_of_ne {c : Char} (hc : c ≠ '%') (t : List Char) (flags : List String) :
    fill (c :: t) flags = c :: fill t flags := by
  rw [fill] <;> simp [hc]

theorem fill_sign {t : List Char} (hs : t.head? ≠ some 's') (hv : t.head? ≠ some 'v')
    (flags : List String) :
    fill ('%' :: t) flags = '%' :: fill t flags.tail := by
  rw [fill]
  · intro u flag flags' _ ht
    simp [ht] at hs
  · intro u flag flags' _ ht
    simp [ht] at hv

theorem fill_of_place (p : Place) (t : List Char) (flags : List String) :
    fill (p.chars ++ t) flags = filling flags 0 p ++ fill t flags.tail := by
  cases p with
  | s => cases flags <;> rfl
  | v => cases flags <;> rfl

theorem fill_of_noPlace {l t : List Char} (hl : ∀ p : Place, Chars.occursIn p.chars l = false)
    (hs : t.head? ≠ some 's') (hv : t.head? ≠ some 'v') (flags : List String) :
    fill (l ++ t) flags = l ++ fill t (flags.drop (l.count '%')) := by
  induction l generalizing flags with
  | nil => rfl
  | cons c l ih =>
    have hsplit (p : Place) := Bool.or_eq_false_iff.mp (hl p)
    have hrest := ih fun p => (hsplit p).2
    by_cases hc : c = '%'
    · subst hc
      have hhead {d : Char} {p : Place} (hp : p.chars = ['%', d]) (ht : t.head? ≠ some d) :
          (l ++ t).head? ≠ some d := by
        cases l with
        | nil => exact ht
        | cons e l =>
          have hprefix := (hsplit p).1
          intro heq
          cases Option.some.inj heq
          simp [hp] at hprefix
      rw [List.cons_append, fill_sign (hhead (p := .s) rfl hs) (hhead (p := .v) rfl hv), hrest,
        List.count_cons_self, List.drop_tail, List.cons_append]
    · rw [List.cons_append, fill_of_ne hc, hrest, List.count_cons_of_ne hc, List.cons_append]

namespace Pieces

variable {f g : Nat → Place → List Char} (first : Literal) (p : Place) (l : Literal)
    (rest : List (Place × Literal))

theorem write_cons :
    write ⟨first, (p, l) :: rest⟩ f = first.chars ++
      (f 0 p ++ write ⟨l, rest⟩ fun i => f (i + 1)) := by
  simp [write]

theorem signsBefore_zero : signsBefore ⟨first, rest⟩ 0 = first.chars.count '%' := by
  simp [signsBefore, literals]

theorem signsBefore_succ (i : Nat) :
    signsBefore ⟨first, (p, l) :: rest⟩ (i + 1) =
      first.chars.count '%' + 1 + signsBefore ⟨l, rest⟩ i := by
  simp [signsBefore, literals]
  omega

end Pieces

theorem filling_drop (flags : List String) (n i : Nat) :
    filling (flags.drop n) i = filling flags (n + i) := by
  funext p
  rw [filling, filling, List.getElem?_drop]

theorem fill_text (t : Pieces) (flags : List String) :
    fill t.text flags = t.write fun i => filling flags (t.signsBefore i) := by
  obtain ⟨first, rest⟩ := t
  induction rest generalizing first flags with
  | nil =>
    have hfirst := fill_of_noPlace first.noPlace (t := []) (by simp) (by simp) flags
    simpa [Pieces.text, Pieces.write, fill] using hfirst
  | cons piece rest ih =>
    obtain ⟨p, l⟩ := piece
    have htext : Pieces.text ⟨first, (p, l) :: rest⟩ =
        first.chars ++ (p.chars ++ Pieces.text ⟨l, rest⟩) :=
      Pieces.write_cons first p l rest
    have hplace {d : Char} (hd : d ≠ '%') : (p.chars ++ Pieces.text ⟨l, rest⟩).head? ≠ some d := by
      cases p <;> simpa [Place.chars] using hd.symm
    rw [htext, fill_of_noPlace first.noPlace (hplace (by decide)) (hplace (by decide)),
      fill_of_place, List.tail_drop, ih, Pieces.write_cons, Pieces.signsBefore_zero]
    simp only [Pieces.signsBefore_succ, filling_drop, Nat.add_zero]

theorem exists_pieces_cons (c : Char) (t : Pieces) : ∃ t' : Pieces, t'.text = c :: t.text := by
  obtain ⟨⟨chars, noPlace⟩, rest⟩ := t
  by_cases hplace : ∃ p : Place, p.chars <+: c :: chars
  · obtain ⟨p, u, hu⟩ := hplace
    obtain ⟨d, rfl⟩ : ∃ d, chars = d :: u := by
      cases p <;> (cases hu; exact ⟨_, rfl⟩)
    have hnone (q : Place) : Chars.occursIn q.chars u = false :=
      (Bool.or_eq_false_iff.mp (noPlace q)).2
    refine ⟨⟨⟨[], by decide⟩, (p, ⟨u, hnone⟩) :: rest⟩, ?_⟩
    simp only [Pieces.text, Pieces.write_cons, List.nil_append]
    rw [Pieces.write, ← List.append_assoc, hu, Pieces.write]
    rfl
  · refine ⟨⟨⟨c :: chars, fun p => ?_⟩, rest⟩, rfl⟩
    rw [Chars.occursIn, noPlace p, Bool.or_false, ← Bool.not_eq_true, List.isPrefixOf_iff_prefix]
    exact not_exists.mp hplace p

theorem exists_pieces (s : List Char) : ∃ t : Pieces, t.text = s := by
  induction s with
  | nil => exact ⟨⟨⟨[], by decide⟩, []⟩, rfl⟩
  | cons c s ih =>
    obtain ⟨t, rfl⟩ := ih
    exact exists_pieces_cons c t

namespace Pieces

variable {t : Pieces} {f g : Nat → Place → List Char}

theorem write_congr (h : ∀ i < t.rest.length, f i = g i) : t.write f = t.write g := by
  unfold write
  rw [List.mapIdx_eq_mapIdx_iff.mpr]
  intro i hi
  rw [h i hi]

theorem length_write : (t.write f).length =
    t.first.chars.length +
      (t.rest.zipIdx.map fun q => (f q.2 q.1.1).length + q.1.2.chars.length).sum := by
  simp [write, List.mapIdx_eq_zipIdx_map, Function.comp_def]

theorem length_write_lt {i : Nat} (hi : i < t.rest.length)
    (hle : ∀ j p, (f j p).length ≤ (g j p).length) (hlt : ∀ p, (f i p).length < (g i p).length) :
    (t.write f).length < (t.write g).length := by
  rw [length_write, length_write]
  apply Nat.add_lt_add_left
  apply List.sum_lt_sum
  · intro q _
    exact Nat.add_le_add_right (hle _ _) _
  · exact ⟨(t.rest[i], i), List.mk_mem_zipIdx_iff_getElem?.mpr (List.getElem?_eq_getElem hi),
      Nat.add_lt_add_right (hlt _) _⟩

theorem signsBefore_eq (h : ∀ l ∈ t.literals.dropLast, '%' ∉ l.chars) {i : Nat}
    (hi : i < t.rest.length) :
    t.signsBefore i = i := by
  have hnone : ∀ n ∈ (t.literals.take (i + 1)).map (fun l => l.chars.count '%'), n = 0 := by
    intro n hn
    obtain ⟨l, hl, rfl⟩ := List.mem_map.mp hn
    have hlast : l ∈ t.literals.dropLast := by
      rw [List.dropLast_eq_take]
      exact List.take_subset_take_left _ (by simp [literals]; omega) hl
    exact List.count_eq_zero.mpr (h l hlast)
  rw [signsBefore, List.sum_eq_zero hnone, Nat.add_zero]

theorem exists_lt_signsBefore {l : Literal} (hl : l ∈ t.literals.dropLast) (hsign : '%' ∈ l.chars) :
    ∃ i < t.rest.length, i < t.signsBefore i := by
  obtain ⟨i, hi, rfl⟩ := List.getElem_of_mem hl
  have hrest : i < t.rest.length := by simpa [literals] using hi
  have hbefore : t.literals.dropLast[i] ∈ t.literals.take (i + 1) := by
    rw [List.getElem_dropLast]
    exact List.mem_take_iff_getElem.mpr ⟨i, by simp [literals]; omega, rfl⟩
  have hcount : t.literals.dropLast[i].chars.count '%' ≤
      ((t.literals.take (i + 1)).map fun l => l.chars.count '%').sum :=
    List.le_sum_of_mem (List.mem_map_of_mem hbefore)
  have hpos : 0 < t.literals.dropLast[i].chars.count '%' := List.count_pos_iff.mpr hsign
  refine ⟨i, hrest, ?_⟩
  unfold signsBefore
  omega

theorem length_filling_replicate (n i : Nat) (p : Place) :
    (filling (List.replicate n "") i p).length = if i < n then 0 else 2 := by
  rw [filling, List.getElem?_replicate]
  split
  · rfl
  · cases p <;> rfl

/-- The flags go to the places in order, whatever they are, where no percent sign stands in a
literal piece before a place, and only there. -/
theorem write_inOrder_iff (t : Pieces) :
    (∀ flags, (t.write fun i => filling flags (t.signsBefore i)) = t.write (filling flags)) ↔
      ∀ l ∈ t.literals.dropLast, '%' ∉ l.chars := by
  constructor
  · intro h l hl hsign
    obtain ⟨i, hi, hlt⟩ := exists_lt_signsBefore hl hsign
    -- One empty flag for each place up to this one: in order they fill it, but the sign before it
    -- uses one up.
    let flags := List.replicate (i + 1) ""
    have hle (j : Nat) (p : Place) : (filling flags j p).length ≤
        (filling flags (t.signsBefore j) p).length := by
      have hj : j ≤ t.signsBefore j := Nat.le_add_right _ _
      rw [length_filling_replicate, length_filling_replicate]
      split <;> split <;> omega
    have hfilled (p : Place) : (filling flags i p).length <
        (filling flags (t.signsBefore i) p).length := by
      rw [length_filling_replicate, length_filling_replicate, if_pos (by omega), if_neg (by omega)]
      decide
    have hshorter := length_write_lt hi hle hfilled
    rw [h] at hshorter
    exact absurd hshorter (Nat.lt_irrefl _)
  · intro h flags
    apply write_congr
    intro i hi
    rw [signsBefore_eq h hi]

end Pieces

/-- A template, seen as literal pieces with places between them, is filled by writing the pieces as
they are and in each place the flag whose number is that of the percent signs before it, verbatim;
where the flags have run out the place stays. The number of the place itself takes the place of that
number, for all flags, just where no literal piece before a place holds a percent sign. -/
theorem render_pieces (code : ResultCode) :
    (∃ t : Pieces, t.text = code.template.toList) ∧
    ∀ t : Pieces, t.text = code.template.toList →
      (∀ flags, code.render flags =
        String.ofList (t.write fun i => filling flags (t.signsBefore i))) ∧
      ((∀ flags, code.render flags = String.ofList (t.write (filling flags))) ↔
        ∀ l ∈ t.literals.dropLast, '%' ∉ l.chars) := by
  refine ⟨exists_pieces _, fun t ht => ?_⟩
  have hrender (flags : List String) :
      code.render flags = String.ofList (t.write fun i => filling flags (t.signsBefore i)) := by
    rw [render, ← ht, fill_text]
  refine ⟨hrender, ?_⟩
  simp only [hrender, String.ofList_inj]
  exact t.write_inOrder_iff

/-- A percent sign in front of the first place uses up the first flag: the second one is written
there, and the second place is left. -/
theorem render_pieces_stray_sign :
    let code : ResultCode := ⟨49000, "100% of %s, err: %v"⟩
    let t : Pieces :=
      ⟨⟨"100% of ".toList, by decide⟩, [(.s, ⟨", err: ".toList, by decide⟩), (.v, ⟨[], by decide⟩)]⟩
    t.text = code.template.toList ∧ code.render ["%v", "x"] = "100% of x, err: %v" ∧
      ¬∀ flags, code.render flags = String.ofList (t.write (filling flags)) := by
  intro code t
  have ht : t.text = code.template.toList := by decide
  obtain ⟨hrender, hinOrder⟩ := (render_pieces code).2 t ht
  refine ⟨ht, ?_, ?_⟩
  · rw [hrender]
    decide
  · rw [hinOrder]
    decide

end HostReach.ResultCode
