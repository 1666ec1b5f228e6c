import HostReach.Text.Decimal

/-!
The numeral of a number consists of digits, begins with a zero only if it is that zero, and stands
for the number. What is read as a number below a limit are digits that stand for it, with at most
one plus sign before them: any number of zeros may come first, and nothing else may stand among
them.
-/
namespace HostReach.Decimal

theorem valueOf_digitChar {d : Nat} (h : d < 10) : valueOf d.digitChar = d := by
  revert d
  decide

theorem isDigit_of_mem_digits {n : Nat} {c : Char} (h : c ∈ digits n) : isDigit c = true :=
  Nat.isDigit_of_mem_toDigits (by decide) (by decide) h

theorem digits_of_lt {n : Nat} (h : n < 10) : digits n = [n.digitChar] :=
  Nat.toDigits_of_lt_base h

theorem digits_of_le {n : Nat} (h : 10 ≤ n) :
    digits n = digits (n / 10) ++ [(n % 10).digitChar] :=
  Nat.toDigits_of_base_le (by decide) h

theorem toNat_append_singleton (ds : List Char) (c : Char) :
    toNat (ds ++ [c]) = 10 * toNat ds + valueOf c := by
  simp [toNat]

@[simp] theorem toNat_digits (n : Nat) : toNat (digits n) = n := by
  induction n using Nat.strongRecOn with
  | ind n ih =>
    by_cases h : n < 10
    · rw [digits_of_lt h, ← List.nil_append [n.digitChar], toNat_append_singleton,
        valueOf_digitChar h]
      simp [toNat]
    · rw [digits_of_le (by omega), toNat_append_singleton, ih (n / 10) (by omega),
        valueOf_digitChar (Nat.mod_lt n (by decide))]
      omega

theorem digitChar_ne_zero {d : Nat} (h : d < 10) (hpos : 0 < d) : d.digitChar ≠ '0' := by
  revert d
  decide

theorem digits_zero : digits 0 = ['0'] := rfl

theorem digits_of_pos {n : Nat} (h : 0 < n) :
    ∃ c ds, digits n = c :: ds ∧ isDigit c = true ∧ c ≠ '0' := by
  induction n using Nat.strongRecOn with
  | ind n ih =>
    by_cases hn : n < 10
    · refine ⟨n.digitChar, [], digits_of_lt hn, ?_, digitChar_ne_zero hn h⟩
      exact isDigit_of_mem_digits (n := n) (by simp [digits_of_lt hn])
    · obtain ⟨c, ds, hds, hc⟩ := ih (n / 10) (by omega) (by omega)
      refine ⟨c, ds ++ [(n % 10).digitChar], ?_, hc⟩
      rw [digits_of_le (by omega), hds, List.cons_append]

structure IsDigits (t : List Char) (n : Nat) : Prop where
  nonempty : t ≠ []
  digits : ∀ c ∈ t, isDigit c = true
  value : toNat t = n

/-- A numeral as it is read: digits, with at most one plus sign before them. -/
def IsNumeral (t : List Char) (n : Nat) : Prop := IsDigits t n ∨ ∃ ds, t = '+' :: ds ∧ IsDigits ds n

theorem le_foldl_digits (t : List Char) (n : Nat) :
    n ≤ t.foldl (fun n c => 10 * n + valueOf c) n := by
  induction t generalizing n with
  | nil => exact Nat.le_refl n
  | cons c t ih =>
    have hnext := ih (10 * n + valueOf c)
    rw [List.foldl_cons]
    omega

theorem readDigits_eq_ok_iff {limit n value : Nat} (hn : n < limit) {t : List Char} :
    readDigits limit n t = .ok value ↔
      (∀ c ∈ t, isDigit c = true) ∧ t.foldl (fun n c => 10 * n + valueOf c) n = value ∧
      value < limit := by
  induction t generalizing n with
  | nil =>
    simp only [readDigits, Except.ok.injEq, List.not_mem_nil, false_implies, implies_true,
      List.foldl_nil, true_and]
    constructor
    · rintro rfl
      exact ⟨rfl, hn⟩
    · exact And.left
  | cons c t ih =>
    rw [readDigits, List.forall_mem_cons, List.foldl_cons]
    by_cases hc : isDigit c = true
    · by_cases hlimit : limit ≤ 10 * n + valueOf c
      · have hle := le_foldl_digits t (10 * n + valueOf c)
        simp only [hc, hlimit, Bool.not_true, Bool.false_eq_true, if_true, if_false]
        constructor
        · intro h
          cases h
        · rintro ⟨-, hvalue, hlt⟩
          omega
      · simp only [hc, hlimit, Bool.not_true, Bool.false_eq_true, if_false, true_and]
        exact ih (by omega)
    · simp [hc]

theorem not_isDigits_nil (n : Nat) : ¬IsDigits [] n := fun h => h.nonempty rfl

theorem not_isDigits_plus (t : List Char) (n : Nat) : ¬IsDigits ('+' :: t) n := by
  intro h
  have hplus : isDigit '+' = true := h.digits '+' List.mem_cons_self
  cases hplus

theorem isDigits_and_lt_iff {limit n : Nat} (hlimit : 0 < limit) {t : List Char} (hne : t ≠ []) :
    IsDigits t n ∧ n < limit ↔ readDigits limit 0 t = .ok n := by
  rw [readDigits_eq_ok_iff hlimit]
  constructor
  · rintro ⟨h, hlt⟩
    exact ⟨h.digits, h.value, hlt⟩
  · rintro ⟨hdigits, hvalue, hlt⟩
    exact ⟨⟨hne, hdigits, hvalue⟩, hlt⟩

theorem not_isNumeral_nil (n : Nat) : ¬IsNumeral [] n := by
  rintro (h | ⟨ds, hds, -⟩)
  · exact not_isDigits_nil n h
  · cases hds

theorem isNumeral_plus_iff {t : List Char} {n : Nat} : IsNumeral ('+' :: t) n ↔ IsDigits t n := by
  constructor
  · rintro (h | ⟨ds, hds, h⟩)
    · exact absurd h (not_isDigits_plus t n)
    · cases hds
      exact h
  · intro h
    exact .inr ⟨t, rfl, h⟩

theorem isNumeral_iff_of_unsigned {t : List Char} {n : Nat} (h : ∀ ds, t ≠ '+' :: ds) :
    IsNumeral t n ↔ IsDigits t n := by
  constructor
  · rintro (hdigits | ⟨ds, hds, -⟩)
    · exact hdigits
    · exact absurd hds (h ds)
  · exact .inl

/-- What is read below a limit: the numerals of the numbers below it. -/
theorem readBelow_eq_ok_iff {limit n : Nat} (hlimit : 0 < limit) {t : List Char} :
    readBelow limit t = .ok n ↔ IsNumeral t n ∧ n < limit := by
  unfold readBelow
  split
  · simp [not_isNumeral_nil]
  · simp [isNumeral_plus_iff, not_isDigits_nil]
  · next ds hne =>
    have hds : ds ≠ [] := by
      rintro rfl
      exact hne rfl
    rw [isNumeral_plus_iff, isDigits_and_lt_iff hlimit hds]
  · next hnil _ hunsigned =>
    rw [isNumeral_iff_of_unsigned hunsigned, isDigits_and_lt_iff hlimit hnil]

end HostReach.Decimal
