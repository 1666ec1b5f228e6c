import HostReach.Json.Printer
import HostReach.Json.Token
import HostReach.Proofs.Text.Decimal

/-!
The smallest parts of a printed value read back: white space is passed over, a numeral gives its
number, and a quoted text gives its characters, whatever they are.
-/
namespace HostReach.Json

theorem skipSpace_cons {c : Char} (h : isSpace c = false) (t : List Char) :
    skipSpace (c :: t) = c :: t := by
  simp [skipSpace, h]

theorem skipSpace_append {w : List Char} (h : ∀ c ∈ w, isSpace c) (t : List Char) :
    skipSpace (w ++ t) = skipSpace t := by
  induction w with
  | nil => rfl
  | cons c w ih =>
    have hc : isSpace c = true := h c (by simp)
    simpa [skipSpace, List.dropWhile_cons, hc] using ih fun d hd => h d (by simp [hd])

def EndsNumber (t : List Char) : Prop :=
  ∀ c r, t = c :: r → Decimal.isDigit c = false ∧ c ≠ '.' ∧ c ≠ 'e' ∧ c ≠ 'E'

theorem endsNumber_cons {c : Char}
    (h : Decimal.isDigit c = false ∧ c ≠ '.' ∧ c ≠ 'e' ∧ c ≠ 'E') (t : List Char) :
    EndsNumber (c :: t) := by
  intro d r hd
  cases hd
  exact h

def EndsDigits (t : List Char) : Prop := ∀ c r, t = c :: r → Decimal.isDigit c = false

theorem EndsNumber.endsDigits {t : List Char} (h : EndsNumber t) : EndsDigits t :=
  fun c r ht => (h c r ht).1

theorem takeWhile_isDigit {ds t : List Char} (hds : ∀ c ∈ ds, Decimal.isDigit c)
    (ht : EndsDigits t) : (ds ++ t).takeWhile Decimal.isDigit = ds := by
  rw [List.takeWhile_append_of_pos hds]
  cases t with
  | nil => simp
  | cons c t => simp [ht c t rfl]

theorem dropWhile_isDigit {ds t : List Char} (hds : ∀ c ∈ ds, Decimal.isDigit c)
    (ht : EndsDigits t) : (ds ++ t).dropWhile Decimal.isDigit = t := by
  rw [List.dropWhile_append_of_pos hds]
  cases t with
  | nil => rfl
  | cons c t => simp [ht c t rfl]

theorem readAfterInteger_eq {negative : Bool} {ds t : List Char} {n : Number} (ht : EndsNumber t)
    (hn : Number.ofInteger negative ds = some n) :
    readAfterInteger negative ds t = .ok (n, t) := by
  unfold readAfterInteger
  split
  · exact absurd rfl (ht _ _ rfl).2.1
  · exact absurd rfl (ht _ _ rfl).2.2.1
  · exact absurd rfl (ht _ _ rfl).2.2.2
  · simp [hn]

theorem readNumber_digits {negative : Bool} {m : Nat} {n : Number} {t : List Char}
    (ht : EndsNumber t) (hn : Number.ofInteger negative (Decimal.digits m) = some n) :
    readNumber negative (Decimal.digits m ++ t) = .ok (n, t) := by
  by_cases hm : m = 0
  · subst hm
    rw [Decimal.digits_zero] at hn ⊢
    cases t with
    | nil => exact readAfterInteger_eq ht hn
    | cons c t =>
      have hc : Decimal.isDigit c = false := (ht c t rfl).1
      simp only [List.cons_append, List.nil_append, readNumber, hc, Bool.false_eq_true, if_false]
      exact readAfterInteger_eq ht hn
  · obtain ⟨c, ds, hds, hc, hzero⟩ := Decimal.digits_of_pos (Nat.pos_of_ne_zero hm)
    have hall : ∀ d ∈ ds, Decimal.isDigit d := by
      intro d hd
      exact Decimal.isDigit_of_mem_digits (n := m) (by simp [hds, hd])
    rw [hds] at hn ⊢
    rw [List.cons_append, readNumber]
    · rw [if_pos hc, takeWhile_isDigit hall ht.endsDigits, dropWhile_isDigit hall ht.endsDigits]
      exact readAfterInteger_eq ht hn
    · exact hzero

theorem ofInteger_digits {m : Nat} (h : m < Nat.pow 2 64) :
    Number.ofInteger false (Decimal.digits m) = some (.int m) := by
  unfold Number.ofInteger
  simp only [Decimal.toNat_digits, Bool.false_and, Bool.false_eq_true, if_false, Bool.not_false,
    Bool.true_and, decide_eq_true h, if_true]

theorem ofInteger_digits_negative {m : Nat} (hpos : m ≠ 0) (h : m ≤ Nat.pow 2 63) :
    Number.ofInteger true (Decimal.digits m) = some (.int (-m)) := by
  have hfits : (true && m != 0 && decide (m ≤ Nat.pow 2 63)) = true := by
    rw [Bool.true_and, Bool.and_eq_true, bne_iff_ne, decide_eq_true_eq]
    exact ⟨hpos, h⟩
  unfold Number.ofInteger
  rw [Decimal.toNat_digits, if_pos hfits]

theorem hexValue?_hexDigit {n : Nat} (h : n < 16) : hexValue? (hexDigit n) = some n := by
  revert n
  decide

theorem utf8Size_hexDigit {n : Nat} (h : n < 16) : (hexDigit n).utf8Size = 1 := by
  revert n
  decide

theorem readHex_control {n : Nat} (h : n < 32) (t : List Char) :
    readHex ('0' :: '0' :: hexDigit (n / 16) :: hexDigit (n % 16) :: t) = .ok n := by
  have hhigh : n / 16 < 16 := by omega
  have hlow : n % 16 < 16 := by omega
  have hsize : Utf8.size ['0', '0', hexDigit (n / 16), hexDigit (n % 16)] = 4 := by
    simp [Utf8.size, utf8Size_hexDigit hhigh, utf8Size_hexDigit hlow,
      show '0'.utf8Size = 1 by decide]
  have hvalues : ['0', '0', hexDigit (n / 16), hexDigit (n % 16)].mapM hexValue? =
      some [0, 0, n / 16, n % 16] := by
    simp [hexValue?_hexDigit hhigh, hexValue?_hexDigit hlow, show hexValue? '0' = some 0 by decide]
  have hvalue : ((0 * 16 + 0) * 16 + n / 16) * 16 + n % 16 = n := by omega
  unfold readHex
  simp only [List.take_succ_cons, List.take_zero, hsize, hvalues, hvalue, Nat.lt_irrefl, if_false]

theorem readText_escape {c : Char} {e t : List Char} (h : readEscape (e ++ t) = .ok (c, e.length)) :
    readText 0 ('\\' :: (e ++ t)) = (readText 0 t).map fun p => (c :: p.1, p.2) := by
  have hskip : ∀ e : List Char, readText e.length (e ++ t) = readText 0 t := by
    intro e
    induction e with
    | nil => rfl
    | cons d e ih => rw [List.cons_append, List.length_cons, readText, ih]
  rw [readText]
  simp only [h, hskip]
  cases readText 0 t <;> rfl

theorem readEscape_short {c e : Char} (hu : e ≠ 'u') (h : shortEscape? e = some c) (t : List Char) :
    readEscape ([e] ++ t) = .ok (c, [e].length) := by
  rw [List.singleton_append, readEscape]
  · simp [h]
  · exact hu

theorem readEscape_control {c : Char} (h : c.toNat < 32) (t : List Char) :
    readEscape (['u', '0', '0', hexDigit (c.toNat / 16), hexDigit (c.toNat % 16)] ++ t) =
      .ok (c, 5) := by
  have hlow : isLowSurrogate c.toNat = false := by
    simp [isLowSurrogate]
    omega
  have hhigh : isHighSurrogate c.toNat = false := by
    simp [isHighSurrogate]
    omega
  simp only [List.cons_append, List.nil_append, readEscape]
  rw [readHex_control h]
  simp [bind, Except.bind, hlow, hhigh, Char.ofNat_toNat]

theorem readText_escaped (c : Char) (t : List Char) :
    readText 0 (escaped c ++ t) = (readText 0 t).map fun p => (c :: p.1, p.2) := by
  have short {c e : Char} (hu : e ≠ 'u') (h : shortEscape? e = some c) :
      readText 0 ('\\' :: e :: t) = (readText 0 t).map fun p => (c :: p.1, p.2) :=
    readText_escape (readEscape_short hu h t)
  by_cases hquote : c = '\x22'
  · subst hquote
    exact short (by decide) rfl
  by_cases hbackslash : c = '\\'
  · subst hbackslash
    exact short (by decide) rfl
  by_cases hbackspace : c = '\x08'
  · subst hbackspace
    exact short (by decide) rfl
  by_cases htab : c = '\t'
  · subst htab
    exact short (by decide) rfl
  by_cases hnewline : c = '\n'
  · subst hnewline
    exact short (by decide) rfl
  by_cases hformfeed : c = '\x0c'
  · subst hformfeed
    exact short (by decide) rfl
  by_cases hreturn : c = '\r'
  · subst hreturn
    exact short (by decide) rfl
  by_cases hcontrol : c < ' '
  · have h : c.toNat < 32 := hcontrol
    simp only [escaped, beq_iff_eq, hquote, hbackslash, hbackspace, htab, hnewline,
      hformfeed, hreturn, hcontrol, Bool.or_eq_true, or_self, if_false, if_true]
    exact readText_escape (readEscape_control h t)
  · simp only [escaped, beq_iff_eq, hquote, hbackslash, hbackspace, htab, hnewline,
      hformfeed, hreturn, hcontrol, Bool.or_eq_true, or_self, if_false]
    rw [List.singleton_append, readText]
    simp only [beq_iff_eq, hquote, hbackslash, hcontrol, if_false]
    cases readText 0 t <;> rfl

theorem readText_flatMap_escaped (s t : List Char) :
    readText 0 (s.flatMap escaped ++ '\x22' :: t) = .ok (s, t) := by
  induction s with
  | nil => simp [readText]
  | cons c s ih =>
    rw [List.flatMap_cons, List.append_assoc, readText_escaped, ih]
    rfl

theorem readString_flatMap_escaped (s : String) (t : List Char) :
    readString (s.toList.flatMap escaped ++ '\x22' :: t) = .ok (s, t) := by
  unfold readString
  rw [readText_flatMap_escaped]
  simp [Except.map]

end HostReach.Json
