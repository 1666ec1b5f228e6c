import HostReach.Json.Skip
import HostReach.Proofs.Json.Token

/-!
Numbers as they are written. What is passed over as a number is one of these with nothing behind it
that would continue it, and reading one gives its value, which a number beyond binary64 has not.
-/
namespace HostReach.Json

structure Digits where
  first : Char
  others : List Char
  isDigit : ∀ c ∈ first :: others, Decimal.isDigit c

namespace Digits

def chars (ds : Digits) : List Char := ds.first :: ds.others

def value (ds : Digits) : Nat := Decimal.toNat ds.chars

theorem isDigit_first (ds : Digits) : Decimal.isDigit ds.first = true := ds.isDigit _ (by simp)

theorem isDigit_others (ds : Digits) : ∀ c ∈ ds.others, Decimal.isDigit c := fun c hc =>
  ds.isDigit c (by simp [hc])

def zero : Digits := ⟨'0', [], List.all_eq_true.mp rfl⟩

def ofText {c : Char} (hc : Decimal.isDigit c = true) (t : List Char) : Digits where
  first := c
  others := t.takeWhile Decimal.isDigit
  isDigit := by
    intro d hd
    rcases List.mem_cons.mp hd with rfl | hd
    · exact hc
    · exact List.all_eq_true.mp List.all_takeWhile d hd

end Digits

structure Exponent where
  mark : Char
  sign : Option Char
  digits : Digits
  isMark : mark = 'e' ∨ mark = 'E'
  isSign : ∀ c ∈ sign, c = '+' ∨ c = '-'

structure Numeral where
  negative : Bool
  whole : Digits
  fraction : Option Digits
  exponent : Option Exponent
  noLeadingZero : whole.first = '0' → whole.others = []

def fractionText (rest : List Char) : Option Digits → List Char
  | none => rest
  | some fs => '.' :: (fs.chars ++ rest)

def exponentText (rest : List Char) : Option Exponent → List Char
  | none => rest
  | some e => e.mark :: (e.sign.toList ++ (e.digits.chars ++ rest))

namespace Numeral

def unsigned (n : Numeral) (rest : List Char) : List Char :=
  n.whole.chars ++ fractionText (exponentText rest n.exponent) n.fraction

def text (n : Numeral) (rest : List Char) : List Char :=
  if n.negative then '-' :: n.unsigned rest else n.unsigned rest

def EndsAt (n : Numeral) (rest : List Char) : Prop :=
  ∀ c t, rest = c :: t → Decimal.isDigit c = false ∧
    (n.exponent = none → c ≠ 'e' ∧ c ≠ 'E' ∧ (n.fraction = none → c ≠ '.'))

theorem EndsAt.of_endsNumber {n : Numeral} {rest : List Char} (h : EndsNumber rest) :
    n.EndsAt rest := by
  intro c t hc
  obtain ⟨hdigit, hpoint, he, hE⟩ := h c t hc
  exact ⟨hdigit, fun _ => ⟨he, hE, fun _ => hpoint⟩⟩

end Numeral

def Exponent.isDown (e : Exponent) : Bool := e.sign == some '-'

def Exponent.power (e : Exponent) : Int := if e.isDown then -e.digits.value else e.digits.value

/-- A significand scaled by a power of ten. An exponent beyond 31 bits takes every number but zero
out of range, or to zero if it is negative. -/
def scaled? (negative : Bool) (n : Nat) (scale : Int) : Option Exponent → Option Binary64
  | none => Binary64.ofParts negative n scale
  | some e =>
    if e.digits.value < Nat.pow 2 31 then Binary64.ofParts negative n (scale + e.power)
    else if n != 0 && !e.isDown then none
    else some (.zero negative)

/-- The number that is meant, if it is in range: an integer without fraction and exponent that fits
64 bits stays one. -/
def Numeral.value? (n : Numeral) : Option Number :=
  match n.fraction, n.exponent with
  | none, none => Number.ofInteger n.negative n.whole.chars
  | fs, e =>
    let (m, scale) := significand n.whole.chars (fs.elim [] Digits.chars)
    (scaled? n.negative m scale e).map .real

theorem Number.ofInteger_eq_int {negative : Bool} {ds : List Char} {i : Int} :
    Number.ofInteger negative ds = some (.int i) ↔
      (negative = true ∧ Decimal.toNat ds ≠ 0 ∧ Decimal.toNat ds ≤ Nat.pow 2 63 ∧
        i = -Decimal.toNat ds) ∨
        (negative = false ∧ Decimal.toNat ds < Nat.pow 2 64 ∧ i = Decimal.toNat ds) := by
  unfold ofInteger
  simp only
  split
  · rename_i h
    simp only [Bool.and_eq_true, bne_iff_ne, decide_eq_true_eq] at h
    obtain ⟨⟨rfl, hzero⟩, hrange⟩ := h
    constructor
    · intro h
      cases h
      exact .inl ⟨rfl, hzero, hrange, rfl⟩
    · rintro (⟨-, -, -, rfl⟩ | ⟨h, -⟩)
      · rfl
      · cases h
  · rename_i hnegative
    split
    · rename_i h
      simp only [Bool.and_eq_true, Bool.not_eq_true', decide_eq_true_eq] at h
      obtain ⟨rfl, hrange⟩ := h
      constructor
      · intro h
        cases h
        exact .inr ⟨rfl, hrange, rfl⟩
      · rintro (⟨h, -⟩ | ⟨-, -, rfl⟩)
        · cases h
        · rfl
    · rename_i hpositive
      constructor
      · intro h
        obtain ⟨x, -, hx⟩ := Option.map_eq_some_iff.mp h
        cases hx
      · rintro (⟨rfl, hzero, hrange, -⟩ | ⟨rfl, hrange, -⟩)
        · exact absurd (by simp [hzero, hrange]) hnegative
        · exact absurd (by simp [hrange]) hpositive

/-- An integer is written without fraction and exponent, is not minus zero, and fits 64 bits. -/
theorem Numeral.value?_eq_int {n : Numeral} {i : Int} :
    n.value? = some (.int i) ↔ n.fraction = none ∧ n.exponent = none ∧
      ((n.negative = true ∧ n.whole.value ≠ 0 ∧ n.whole.value ≤ Nat.pow 2 63 ∧ i = -n.whole.value) ∨
        (n.negative = false ∧ n.whole.value < Nat.pow 2 64 ∧ i = n.whole.value)) := by
  have hreal (o : Option Binary64) : o.map Number.real ≠ some (.int i) := by cases o <;> simp
  unfold value?
  split
  · rename_i hfraction hexponent
    simp only [Number.ofInteger_eq_int, hfraction, hexponent, true_and]
    rfl
  · rename_i hparts
    simp only [hreal, false_iff, not_and]
    exact fun hfraction hexponent => absurd hexponent (hparts hfraction)

theorem endsDigits_dropWhile (t : List Char) : EndsDigits (t.dropWhile Decimal.isDigit) := by
  intro c r h
  have hnot := List.head?_dropWhile_not Decimal.isDigit t
  simpa [h] using hnot

theorem endsDigits_or_cons (t : List Char) :
    EndsDigits t ∨ ∃ c u, t = c :: u ∧ Decimal.isDigit c = true := by
  cases t with
  | nil => exact .inl (by simp [EndsDigits])
  | cons c u =>
    by_cases hc : Decimal.isDigit c = true
    · exact .inr ⟨c, u, rfl, hc⟩
    · exact .inl (by simpa [EndsDigits] using hc)

theorem ofText_chars_append {c : Char} (hc : Decimal.isDigit c = true) (t : List Char) :
    (Digits.ofText hc t).chars ++ t.dropWhile Decimal.isDigit = c :: t := by
  rw [Digits.chars, List.cons_append]
  exact congrArg _ List.takeWhile_append_dropWhile

theorem exists_exponent_of_skipExponent {mark : Char} (hmark : mark = 'e' ∨ mark = 'E')
    {t r : List Char} (h : skipExponent t = .ok r) :
    ∃ e : Exponent, mark :: t = exponentText r (some e) ∧ EndsDigits r := by
  unfold skipExponent at h
  simp only at h
  split at h
  · cases h
  · rename_i c u hu
    split at h
    · rename_i hc
      cases h
      have hds := ofText_chars_append hc u
      split at hu
      · refine ⟨⟨mark, some '+', .ofText hc u, hmark, by simp⟩, ?_, endsDigits_dropWhile u⟩
        rw [exponentText, hds, hu]
        rfl
      · refine ⟨⟨mark, some '-', .ofText hc u, hmark, by simp⟩, ?_, endsDigits_dropWhile u⟩
        rw [exponentText, hds, hu]
        rfl
      · refine ⟨⟨mark, none, .ofText hc u, hmark, by simp⟩, ?_, endsDigits_dropWhile u⟩
        rw [exponentText, hds, hu]
        rfl
    · cases h

def EndsScale (e : Option Exponent) (t : List Char) : Prop :=
  ∀ c r, t = c :: r → Decimal.isDigit c = false ∧ (e = none → c ≠ 'e' ∧ c ≠ 'E')

def skipScale : List Char → Except Fault (List Char)
  | 'e' :: t => skipExponent t
  | 'E' :: t => skipExponent t
  | t => .ok t

theorem exists_exponentText {t r : List Char} (ht : EndsDigits t) (h : skipScale t = .ok r) :
    ∃ e : Option Exponent, t = exponentText r e ∧ EndsScale e r := by
  unfold skipScale at h
  split at h
  · obtain ⟨e, he, hr⟩ := exists_exponent_of_skipExponent (.inl rfl) h
    exact ⟨some e, he, fun c u hc => ⟨hr c u hc, by simp⟩⟩
  · obtain ⟨e, he, hr⟩ := exists_exponent_of_skipExponent (.inr rfl) h
    exact ⟨some e, he, fun c u hc => ⟨hr c u hc, by simp⟩⟩
  · rename_i he hE
    cases h
    refine ⟨none, rfl, fun c u hc => ⟨ht c u hc, fun _ => ⟨?_, ?_⟩⟩⟩
    · rintro rfl
      exact he u hc
    · rintro rfl
      exact hE u hc

theorem skipAfterInteger_of_ne_point {t : List Char} (h : ∀ u, t ≠ '.' :: u) :
    skipAfterInteger t = skipScale t := by
  unfold skipAfterInteger
  split
  · exact absurd rfl (h _)
  · rfl
  · rfl
  · unfold skipScale
    split <;> simp_all

theorem skipAfterInteger_point {c : Char} (hc : Decimal.isDigit c = true) (t : List Char) :
    skipAfterInteger ('.' :: c :: t) = skipScale (t.dropWhile Decimal.isDigit) := by
  simp only [skipAfterInteger, List.takeWhile_cons, List.dropWhile_cons, hc, if_true,
    List.isEmpty_cons, Bool.false_eq_true, if_false]
  rfl

theorem skipAfterInteger_point_of_not_digit {t : List Char} (ht : EndsDigits t) :
    ∃ f, skipAfterInteger ('.' :: t) = .error f := by
  have hnone : ([] ++ t).takeWhile Decimal.isDigit = [] := takeWhile_isDigit (by simp) ht
  simp only [List.nil_append] at hnone
  simp only [skipAfterInteger, hnone, List.isEmpty_nil, if_true]
  exact ⟨_, rfl⟩

theorem exists_numeral_of_skipAfterInteger {ds : Digits} (hds : ds.first = '0' → ds.others = [])
    {t r : List Char} (ht : EndsDigits t) (h : skipAfterInteger t = .ok r) :
    ∃ n : Numeral, ds.chars ++ t = n.unsigned r ∧ n.EndsAt r := by
  by_cases hpoint : ∃ u, t = '.' :: u
  · obtain ⟨u, rfl⟩ := hpoint
    rcases endsDigits_or_cons u with hu | ⟨c, v, rfl, hc⟩
    · obtain ⟨f, hf⟩ := skipAfterInteger_point_of_not_digit hu
      rw [hf] at h
      cases h
    · rw [skipAfterInteger_point hc] at h
      obtain ⟨e, he, hr⟩ := exists_exponentText (endsDigits_dropWhile v) h
      refine ⟨⟨false, ds, some (.ofText hc v), e, hds⟩, ?_, fun d w hd => ?_⟩
      · rw [Numeral.unsigned, fractionText, ← he, ofText_chars_append]
      · obtain ⟨hdigit, hmark⟩ := hr d w hd
        exact ⟨hdigit, fun h => ⟨(hmark h).1, (hmark h).2, by simp⟩⟩
  · rw [not_exists] at hpoint
    rw [skipAfterInteger_of_ne_point hpoint] at h
    obtain ⟨e, rfl, hr⟩ := exists_exponentText ht h
    refine ⟨⟨false, ds, none, e, hds⟩, rfl, fun d w hd => ?_⟩
    obtain ⟨hdigit, hmark⟩ := hr d w hd
    refine ⟨hdigit, fun h => ⟨(hmark h).1, (hmark h).2, fun _ => ?_⟩⟩
    rintro rfl
    apply hpoint w
    simp only at h
    rw [h, exponentText, hd]

theorem exists_numeral_of_skipNumber {t r : List Char} (h : skipNumber t = .ok r) :
    ∃ n : Numeral, t = n.unsigned r ∧ n.EndsAt r := by
  unfold skipNumber at h
  split at h
  · cases h
  · rename_i u
    have hu : EndsDigits u ∧ skipAfterInteger u = .ok r := by
      split at h
      · rename_i d v
        split at h
        · cases h
        · rename_i hd
          exact ⟨by simpa [EndsDigits] using hd, h⟩
      · exact ⟨by simp [EndsDigits], h⟩
    have hzero : Digits.zero.first = '0' → Digits.zero.others = [] := fun _ => rfl
    exact exists_numeral_of_skipAfterInteger hzero hu.1 hu.2
  · rename_i c u hzero
    split at h
    · rename_i hc
      have hds : (Digits.ofText hc u).first = '0' → (Digits.ofText hc u).others = [] := by
        rintro rfl
        exact absurd rfl hzero
      obtain ⟨n, hn, hr⟩ := exists_numeral_of_skipAfterInteger hds (endsDigits_dropWhile u) h
      exact ⟨n, by rw [← hn, ofText_chars_append], hr⟩
    · cases h

theorem dropWhile_chars (ds : Digits) {t : List Char} (ht : EndsDigits t) :
    (ds.others ++ t).dropWhile Decimal.isDigit = t := dropWhile_isDigit ds.isDigit_others ht

theorem ne_sign_of_isDigit {c : Char} (h : Decimal.isDigit c = true) : c ≠ '+' ∧ c ≠ '-' := by
  constructor <;> (rintro rfl; revert h; decide)

theorem skipExponent_digit {c : Char} (hc : Decimal.isDigit c = true) (t : List Char) :
    skipExponent (c :: t) = .ok (t.dropWhile Decimal.isDigit) := by
  obtain ⟨hplus, hminus⟩ := ne_sign_of_isDigit hc
  unfold skipExponent
  split
  · rename_i h
    exact absurd (List.cons.inj h).1 hplus
  · rename_i h
    exact absurd (List.cons.inj h).1 hminus
  · simp only [hc, if_true]

theorem skipExponent_sign {s c : Char} (hs : s = '+' ∨ s = '-') (hc : Decimal.isDigit c = true)
    (t : List Char) : skipExponent (s :: c :: t) = .ok (t.dropWhile Decimal.isDigit) := by
  rcases hs with rfl | rfl <;> simp [skipExponent, hc]

theorem skipExponent_text (e : Exponent) {rest : List Char} (h : EndsDigits rest) :
    skipExponent (e.sign.toList ++ (e.digits.chars ++ rest)) = .ok rest := by
  cases hsign : e.sign with
  | none =>
    rw [Option.toList_none, List.nil_append, Digits.chars, List.cons_append,
      skipExponent_digit e.digits.isDigit_first, dropWhile_chars _ h]
  | some c =>
    rw [Option.toList_some, List.singleton_append, Digits.chars, List.cons_append,
      skipExponent_sign (e.isSign c hsign) e.digits.isDigit_first, dropWhile_chars _ h]

theorem skipScale_exponentText {e : Option Exponent} {rest : List Char} (h : EndsScale e rest) :
    skipScale (exponentText rest e) = .ok rest := by
  have hdigits : EndsDigits rest := fun c t hc => (h c t hc).1
  cases e with
  | none =>
    rw [exponentText, skipScale]
    · rintro t rfl
      exact absurd rfl ((h _ _ rfl).2 rfl).1
    · rintro t rfl
      exact absurd rfl ((h _ _ rfl).2 rfl).2
  | some e =>
    have hexponent := skipExponent_text e hdigits
    rw [exponentText]
    rcases e.isMark with hmark | hmark <;> (rw [hmark]; exact hexponent)

theorem Numeral.EndsAt.endsScale {n : Numeral} {rest : List Char} (h : n.EndsAt rest) :
    EndsScale n.exponent rest := by
  intro c t hc
  obtain ⟨hdigit, hmark⟩ := h c t hc
  exact ⟨hdigit, fun he => ⟨(hmark he).1, (hmark he).2.1⟩⟩

theorem endsDigits_exponentText {e : Option Exponent} {rest : List Char} (h : EndsScale e rest) :
    EndsDigits (exponentText rest e) := by
  cases e with
  | none => exact fun c t hc => (h c t hc).1
  | some e =>
    intro c t hc
    cases hc
    rcases e.isMark with hmark | hmark <;> rw [hmark] <;> rfl

theorem endsDigits_fractionText {n : Numeral} {rest : List Char} (h : n.EndsAt rest) :
    EndsDigits (fractionText (exponentText rest n.exponent) n.fraction) := by
  cases n.fraction with
  | none => exact endsDigits_exponentText h.endsScale
  | some fs =>
    intro c t hc
    cases hc
    rfl

theorem exponentText_ne_point {n : Numeral} {rest : List Char} (h : n.EndsAt rest)
    (hfraction : n.fraction = none) (t : List Char) : exponentText rest n.exponent ≠ '.' :: t := by
  intro ht
  cases he : n.exponent with
  | none =>
    rw [he, exponentText] at ht
    exact absurd rfl (((h _ _ ht).2 he).2.2 hfraction)
  | some e =>
    rw [he, exponentText] at ht
    have hpoint : e.mark = '.' := (List.cons.inj ht).1
    rcases e.isMark with hmark | hmark <;> simp [hmark] at hpoint

theorem skipAfterInteger_text {n : Numeral} {rest : List Char} (h : n.EndsAt rest) :
    skipAfterInteger (fractionText (exponentText rest n.exponent) n.fraction) = .ok rest := by
  have hscale := skipScale_exponentText h.endsScale
  cases hfraction : n.fraction with
  | none =>
    rw [fractionText, skipAfterInteger_of_ne_point (exponentText_ne_point h hfraction), hscale]
  | some fs =>
    rw [fractionText, Digits.chars, List.cons_append, skipAfterInteger_point fs.isDigit_first,
      dropWhile_chars _ (endsDigits_exponentText h.endsScale), hscale]

theorem skipNumber_unsigned {n : Numeral} {rest : List Char} (h : n.EndsAt rest) :
    skipNumber (n.unsigned rest) = .ok rest := by
  have hrest := skipAfterInteger_text h
  have hdigits := endsDigits_fractionText h
  unfold Numeral.unsigned Digits.chars
  rw [List.cons_append]
  by_cases hzero : n.whole.first = '0'
  · rw [hzero, n.noLeadingZero hzero, List.nil_append]
    generalize fractionText (exponentText rest n.exponent) n.fraction = t at hrest hdigits
    cases t with
    | nil => exact hrest
    | cons c t => simp only [skipNumber, hdigits c t rfl, Bool.false_eq_true, if_false, hrest]
  · rw [skipNumber, if_pos n.whole.isDigit_first, dropWhile_chars _ hdigits, hrest]
    exact hzero

theorem readAfterInteger_eq_error {negative : Bool} {ds t : List Char} (ht : EndsNumber t)
    (hn : Number.ofInteger negative ds = none) :
    ∃ f, readAfterInteger negative ds t = .error f := by
  unfold readAfterInteger
  split
  · exact absurd rfl (ht _ _ rfl).2.1
  · exact absurd rfl (ht _ _ rfl).2.2.1
  · exact absurd rfl (ht _ _ rfl).2.2.2
  · rw [hn]
    exact ⟨_, rfl⟩

theorem le_foldl_digits (ds : List Char) (n : Nat) :
    n ≤ ds.foldl (fun n c => 10 * n + Decimal.valueOf c) n := by
  induction ds generalizing n with
  | nil => exact Nat.le_refl n
  | cons c ds ih =>
    have h := ih (10 * n + Decimal.valueOf c)
    rw [List.foldl_cons]
    omega

theorem readExponentDigits_digits {n e : Nat} {ds : List Char}
    (hds : ∀ c ∈ ds, Decimal.isDigit c) {rest : List Char} (hrest : EndsDigits rest)
    (hn : n < Nat.pow 2 31) (he : ds.foldl (fun n c => 10 * n + Decimal.valueOf c) n = e) :
    (e < Nat.pow 2 31 → readExponentDigits n (ds ++ rest) = (some e, rest)) ∧
    (¬e < Nat.pow 2 31 →
      ∃ t, readExponentDigits n (ds ++ rest) = (none, t) ∧ t.dropWhile Decimal.isDigit = rest) := by
  induction ds generalizing n with
  | nil =>
    rw [List.foldl_nil] at he
    subst he
    refine ⟨fun _ => ?_, fun hlarge => absurd hn hlarge⟩
    cases rest with
    | nil => rfl
    | cons c t => simp [readExponentDigits, hrest c t rfl]
  | cons c ds ih =>
    have hc : Decimal.isDigit c = true := hds c (by simp)
    have hall : ∀ d ∈ ds, Decimal.isDigit d := fun d hd => hds d (by simp [hd])
    rw [List.foldl_cons] at he
    simp only [List.cons_append, readExponentDigits, hc, if_true]
    by_cases hover : Nat.pow 2 31 ≤ 10 * n + Decimal.valueOf c
    · have hle := le_foldl_digits ds (10 * n + Decimal.valueOf c)
      simp only [if_pos hover]
      exact ⟨fun hsmall => by omega, fun _ => ⟨_, rfl, dropWhile_isDigit hall hrest⟩⟩
    · simp only [if_neg hover]
      exact ih hall (Nat.lt_of_not_le hover) he

def readPower (negative : Bool) (n : Nat) (scale : Int) (down : Bool)
    (t : List Char) : Read Number :=
  match readExponentDigits 0 t with
  | (some e, rest) =>
    let power : Int := if down then -e else e
    realOr rest (Binary64.ofParts negative n (scale + power))
  | (none, rest) =>
    if n != 0 && !down then .error (.here .numberOutOfRange rest)
    else .ok (.real (.zero negative), rest.dropWhile Decimal.isDigit)

variable {negative : Bool} {n : Nat} {scale : Int} {x : Number} {rest r : List Char}

theorem realOr_eq_ok {o : Option Binary64} :
    realOr rest o = .ok (x, r) ↔ o.map .real = some x ∧ r = rest := by
  cases o <;> simp [realOr, eq_comm]

theorem readPower_eq_ok {e : Exponent} (hrest : EndsDigits rest) :
    readPower negative n scale e.isDown (e.digits.chars ++ rest) = .ok (x, r) ↔
      (scaled? negative n scale (some e)).map .real = some x ∧ r = rest := by
  obtain ⟨hfits, hover⟩ :=
    readExponentDigits_digits e.digits.isDigit hrest (by decide) (show _ = e.digits.value from rfl)
  unfold readPower scaled? Exponent.power
  by_cases h : e.digits.value < Nat.pow 2 31
  · rw [Digits.chars, hfits h]
    simp only [h, if_true]
    exact realOr_eq_ok
  · obtain ⟨t, ht, hdrop⟩ := hover h
    rw [Digits.chars, ht]
    simp only [h, if_false, hdrop]
    split
    · simp
    · simp [eq_comm]

theorem readExponent_digit {c : Char} (hc : Decimal.isDigit c = true) (t : List Char) :
    readExponent negative n scale (c :: t) = readPower negative n scale false (c :: t) := by
  obtain ⟨hplus, hminus⟩ := ne_sign_of_isDigit hc
  unfold readExponent
  split
  rename_i down u h
  split at h
  · rename_i heq
    exact absurd (List.cons.inj heq).1 hplus
  · rename_i heq
    exact absurd (List.cons.inj heq).1 hminus
  · cases h
    simp only [hc, if_true]
    rfl

theorem readExponent_sign {s c : Char} (hs : s = '+' ∨ s = '-') (hc : Decimal.isDigit c = true)
    (t : List Char) :
    readExponent negative n scale (s :: c :: t) =
      readPower negative n scale (some s == some '-') (c :: t) := by
  rcases hs with rfl | rfl
  · simp only [readExponent, hc, if_true]
    rfl
  · rw [show (some '-' == some '-') = true from rfl]
    simp only [readExponent, hc, if_true]
    rfl

theorem readExponent_eq_ok {e : Exponent} (hrest : EndsDigits rest) :
    readExponent negative n scale (e.sign.toList ++ (e.digits.chars ++ rest)) = .ok (x, r) ↔
      (scaled? negative n scale (some e)).map .real = some x ∧ r = rest := by
  rw [← readPower_eq_ok hrest, Exponent.isDown, Digits.chars]
  cases hsign : e.sign with
  | none =>
    rw [Option.toList_none, List.nil_append, List.cons_append,
      readExponent_digit e.digits.isDigit_first]
    rfl
  | some c =>
    rw [Option.toList_some, List.singleton_append, List.cons_append,
      readExponent_sign (e.isSign c hsign) e.digits.isDigit_first]

theorem readAfterDigits_eq_ok {ds fs : List Char} {e : Option Exponent} (hrest : EndsScale e rest) :
    readAfterDigits negative ds fs (exponentText rest e) = .ok (x, r) ↔
      (scaled? negative (significand ds fs).1 (significand ds fs).2 e).map .real = some x ∧
      r = rest := by
  have hdigits : EndsDigits rest := fun c t hc => (hrest c t hc).1
  unfold readAfterDigits
  cases e with
  | none =>
    simp only [exponentText]
    split
    · exact absurd rfl ((hrest _ _ rfl).2 rfl).1
    · exact absurd rfl ((hrest _ _ rfl).2 rfl).2
    · exact realOr_eq_ok
  | some e =>
    rw [exponentText]
    rcases e.isMark with hmark | hmark <;> (rw [hmark]; exact readExponent_eq_ok hdigits)

theorem readAfterInteger_point {fs : Digits} {t ds : List Char} (ht : EndsDigits t) :
    readAfterInteger negative ds ('.' :: (fs.chars ++ t)) =
      readAfterDigits negative ds fs.chars t := by
  simp only [readAfterInteger, takeWhile_isDigit fs.isDigit ht, dropWhile_isDigit fs.isDigit ht,
    Digits.chars]

theorem readAfterInteger_eq_ok {n : Numeral} (h : n.EndsAt rest) :
    readAfterInteger n.negative n.whole.chars
        (fractionText (exponentText rest n.exponent) n.fraction) = .ok (x, r) ↔
      n.value? = some x ∧ r = rest := by
  have hscale := h.endsScale
  unfold Numeral.value?
  cases hfraction : n.fraction with
  | some fs =>
    rw [fractionText, readAfterInteger_point (endsDigits_exponentText hscale)]
    exact readAfterDigits_eq_ok hscale
  | none =>
    cases hexponent : n.exponent with
    | none =>
      have hend : EndsNumber rest := by
        intro c t hc
        obtain ⟨hdigit, hmark⟩ := h c t hc
        obtain ⟨he, hE, hpoint⟩ := hmark hexponent
        exact ⟨hdigit, hpoint hfraction, he, hE⟩
      cases hvalue : Number.ofInteger n.negative n.whole.chars with
      | some y =>
        simp only [fractionText, exponentText, readAfterInteger_eq hend hvalue]
        simp [eq_comm]
      | none =>
        simp only [fractionText, exponentText]
        obtain ⟨f, hf⟩ := readAfterInteger_eq_error hend hvalue
        simp [hf]
    | some e =>
      rw [hexponent] at hscale
      have hread : readAfterDigits n.negative n.whole.chars [] (exponentText rest (some e)) =
          .ok (x, r) ↔ _ :=
        readAfterDigits_eq_ok hscale
      simp only [fractionText, exponentText] at hread ⊢
      rcases e.isMark with hmark | hmark <;> (rw [hmark] at hread ⊢; exact hread)

theorem readNumber_unsigned {n : Numeral} (h : n.EndsAt rest) :
    readNumber n.negative (n.unsigned rest) = .ok (x, r) ↔ n.value? = some x ∧ r = rest := by
  rw [← readAfterInteger_eq_ok h]
  have hdigits := endsDigits_fractionText h
  unfold Numeral.unsigned Digits.chars
  rw [List.cons_append]
  by_cases hzero : n.whole.first = '0'
  · rw [hzero, n.noLeadingZero hzero, List.nil_append]
    generalize fractionText (exponentText rest n.exponent) n.fraction = t at hdigits
    cases t with
    | nil => rfl
    | cons c t => simp only [readNumber, hdigits c t rfl, Bool.false_eq_true, if_false]
  · rw [readNumber, if_pos n.whole.isDigit_first, takeWhile_isDigit n.whole.isDigit_others hdigits,
      dropWhile_chars _ hdigits]
    exact hzero

theorem rest_of_readPower {down : Bool} {c : Char} (hc : Decimal.isDigit c = true) {u : List Char}
    (h : readPower negative n scale down (c :: u) = .ok (x, r)) :
    r = u.dropWhile Decimal.isDigit := by
  let e : Exponent :=
    ⟨'e', if down then some '-' else none, .ofText hc u, .inl rfl, by cases down <;> simp⟩
  have hdown : e.isDown = down := by cases down <;> rfl
  rw [← ofText_chars_append hc u, ← hdown] at h
  exact ((readPower_eq_ok (e := e) (endsDigits_dropWhile u)).mp h).2

theorem skipExponent_of_readExponent {t : List Char}
    (h : readExponent negative n scale t = .ok (x, r)) : skipExponent t = .ok r := by
  have hread := h
  unfold readExponent at hread
  split at hread
  rename_i down t' hsign
  split at hread
  · cases hread
  · rename_i c u
    split at hread
    · rename_i hc
      split at hsign
      · cases hsign
        rw [readExponent_sign (.inl rfl) hc] at h
        rw [skipExponent_sign (.inl rfl) hc, rest_of_readPower hc h]
      · cases hsign
        rw [readExponent_sign (.inr rfl) hc] at h
        rw [skipExponent_sign (.inr rfl) hc, rest_of_readPower hc h]
      · cases hsign
        rw [readExponent_digit hc] at h
        rw [skipExponent_digit hc, rest_of_readPower hc h]
    · cases hread

theorem skipScale_of_readAfterDigits {ds fs t : List Char}
    (h : readAfterDigits negative ds fs t = .ok (x, r)) : skipScale t = .ok r := by
  unfold readAfterDigits at h
  simp only at h
  split at h
  · exact skipExponent_of_readExponent h
  · exact skipExponent_of_readExponent h
  · rename_i he hE
    rw [skipScale]
    · rw [(realOr_eq_ok.mp h).2]
    · exact he
    · exact hE

theorem skipAfterInteger_of_readAfterInteger {ds t : List Char}
    (h : readAfterInteger negative ds t = .ok (x, r)) : skipAfterInteger t = .ok r := by
  by_cases hpoint : ∃ u, t = '.' :: u
  · obtain ⟨u, rfl⟩ := hpoint
    rcases endsDigits_or_cons u with hu | ⟨c, v, rfl, hc⟩
    · have hnone : ([] ++ u).takeWhile Decimal.isDigit = [] := takeWhile_isDigit (by simp) hu
      simp only [List.nil_append] at hnone
      simp only [readAfterInteger, hnone] at h
      split at h <;> simp_all
    · rw [← ofText_chars_append hc v, readAfterInteger_point (endsDigits_dropWhile v)] at h
      rw [skipAfterInteger_point hc, skipScale_of_readAfterDigits h]
  · rw [not_exists] at hpoint
    rw [skipAfterInteger_of_ne_point hpoint]
    unfold readAfterInteger at h
    split at h
    · exact absurd rfl (hpoint _)
    · exact skipScale_of_readAfterDigits h
    · exact skipScale_of_readAfterDigits h
    · rename_i he hE
      split at h
      · cases h
        rw [skipScale]
        · exact he
        · exact hE
      · cases h

theorem skipNumber_of_readNumber {t : List Char} (h : readNumber negative t = .ok (x, r)) :
    skipNumber t = .ok r := by
  unfold readNumber at h
  split at h
  · cases h
  · split at h
    · split at h
      · cases h
      · rename_i hd
        rw [skipNumber]
        simp only [hd]
        exact skipAfterInteger_of_readAfterInteger h
    · exact skipAfterInteger_of_readAfterInteger h
  · rename_i c u hzero
    split at h
    · rename_i hc
      rw [skipNumber, if_pos hc]
      · exact skipAfterInteger_of_readAfterInteger h
      · exact hzero
    · cases h

/-- What is read as a number is one, and its value is what was read. -/
theorem exists_numeral_of_readNumber {t : List Char} (h : readNumber negative t = .ok (x, r)) :
    ∃ n : Numeral, n.negative = negative ∧ t = n.unsigned r ∧ n.EndsAt r ∧ n.value? = some x := by
  obtain ⟨n, rfl, hr⟩ := exists_numeral_of_skipNumber (skipNumber_of_readNumber h)
  let m : Numeral := { n with negative := negative }
  have hm : m.EndsAt r := hr
  exact ⟨m, rfl, rfl, hm, ((readNumber_unsigned hm).mp h).1⟩

end HostReach.Json
