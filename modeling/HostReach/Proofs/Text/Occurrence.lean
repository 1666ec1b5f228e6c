import HostReach.Text.Search

/-!
Occurrences as whole words, next to no word character. A text cut by a character that is in no word
has the occurrences of its parts and no others; where no character is a word character, every
occurrence is one as a word.
-/
namespace HostReach.Chars

variable (isWordChar : Char → Bool)

def beginsWithWord (w t : List Char) : Bool :=
  w.isPrefixOf t && !(t.drop w.length).head?.any isWordChar

/-- Whether `w` stands as a word in a text, before which a word character stands if `inWord` says
so. -/
def occursAsWordAfter (w : List Char) (inWord : Bool) : List Char → Bool
  | [] => !inWord && w.isEmpty
  | c :: t =>
    (!inWord && beginsWithWord isWordChar w (c :: t)) || occursAsWordAfter w (isWordChar c) t

def occursAsWord (w t : List Char) : Bool := occursAsWordAfter isWordChar w false t

variable {isWordChar}

theorem isPrefixOf_append_cons {w : List Char} {c : Char} (hc : c ∉ w) (a b : List Char) :
    w.isPrefixOf (a ++ c :: b) = w.isPrefixOf a := by
  induction w generalizing a with
  | nil => rfl
  | cons d w ih =>
    simp only [List.mem_cons, not_or] at hc
    cases a with
    | nil => simp [List.isPrefixOf, Ne.symm hc.1]
    | cons e a => simp only [List.cons_append, List.isPrefixOf, ih hc.2]

theorem beginsWithWord_append_cons {w : List Char} {c : Char} (hc : c ∉ w)
    (hword : isWordChar c = false) (a b : List Char) :
    beginsWithWord isWordChar w (a ++ c :: b) = beginsWithWord isWordChar w a := by
  unfold beginsWithWord
  rw [isPrefixOf_append_cons hc]
  by_cases hbegin : w.isPrefixOf a
  · obtain ⟨r, rfl⟩ := List.isPrefixOf_iff_prefix.mp hbegin
    rw [List.append_assoc, List.drop_left, List.drop_left]
    cases r with
    | nil => simp [hword]
    | cons d r => simp
  · simp [hbegin]

theorem occursAsWordAfter_append_cons {w : List Char} {c : Char} (hw : w ≠ []) (hc : c ∉ w)
    (hword : isWordChar c = false) (inWord : Bool) (a b : List Char) :
    occursAsWordAfter isWordChar w inWord (a ++ c :: b) =
      (occursAsWordAfter isWordChar w inWord a || occursAsWord isWordChar w b) := by
  induction a generalizing inWord with
  | nil =>
    have hbegins : beginsWithWord isWordChar w (c :: b) = beginsWithWord isWordChar w [] :=
      beginsWithWord_append_cons hc hword [] b
    have hempty : beginsWithWord isWordChar w [] = false := by
      cases w with
      | nil => exact absurd rfl hw
      | cons d w => rfl
    simp [occursAsWordAfter, occursAsWord, hbegins, hempty, hword, hw]
  | cons d a ih =>
    have hbegins := beginsWithWord_append_cons hc hword (d :: a) b
    rw [List.cons_append] at hbegins ⊢
    rw [occursAsWordAfter, occursAsWordAfter, hbegins, ih, Bool.or_assoc]

theorem occursAsWord_append_cons {w : List Char} {c : Char} (hw : w ≠ []) (hc : c ∉ w)
    (hword : isWordChar c = false) (a b : List Char) :
    occursAsWord isWordChar w (a ++ c :: b) =
      (occursAsWord isWordChar w a || occursAsWord isWordChar w b) :=
  occursAsWordAfter_append_cons hw hc hword false a b

theorem occursAsWordAfter_eq_false {w t : List Char} (ht : ∀ c ∈ t, isWordChar c = true) :
    occursAsWordAfter isWordChar w true t = false := by
  induction t with
  | nil => rfl
  | cons c t ih =>
    rw [List.forall_mem_cons] at ht
    rw [occursAsWordAfter, ht.1, ih ht.2]
    rfl

theorem beginsWithWord_of_wordChars {w t : List Char} (ht : ∀ c ∈ t, isWordChar c = true) :
    beginsWithWord isWordChar w t = (t == w) := by
  unfold beginsWithWord
  by_cases hbegin : w.isPrefixOf t
  · obtain ⟨r, rfl⟩ := List.isPrefixOf_iff_prefix.mp hbegin
    rw [hbegin, List.drop_left]
    cases r with
    | nil => simp
    | cons d r => simp [ht d (by simp)]
  · have hne : t ≠ w := by
      rintro rfl
      exact hbegin (List.isPrefixOf_iff_prefix.mpr (List.prefix_refl t))
    simp [hbegin, hne]

theorem occursAsWord_of_wordChars {w t : List Char} (hw : w ≠ [])
    (ht : ∀ c ∈ t, isWordChar c = true) :
    occursAsWord isWordChar w t = (t == w) := by
  unfold occursAsWord
  cases t with
  | nil =>
    cases w with
    | nil => exact absurd rfl hw
    | cons d w => rfl
  | cons c t =>
    have htail := List.forall_mem_cons.mp ht
    rw [occursAsWordAfter, beginsWithWord_of_wordChars ht, htail.1,
      occursAsWordAfter_eq_false htail.2]
    simp

/-- To occur is to occur as a word where nothing is a word character. -/
theorem occursIn_eq_occursAsWord (w t : List Char) :
    occursIn w t = occursAsWord (fun _ => false) w t := by
  unfold occursAsWord
  induction t with
  | nil => rfl
  | cons c t ih => simp [occursIn, occursAsWordAfter, beginsWithWord, ih]

theorem occursIn_of_occursAsWordAfter {w t : List Char} {inWord : Bool}
    (h : occursAsWordAfter isWordChar w inWord t = true) : occursIn w t = true := by
  induction t generalizing inWord with
  | nil =>
    simp only [occursAsWordAfter, Bool.and_eq_true] at h
    exact h.2
  | cons c t ih =>
    rw [occursAsWordAfter, Bool.or_eq_true, Bool.and_eq_true] at h
    rw [occursIn, Bool.or_eq_true]
    rcases h with ⟨-, h⟩ | h
    · unfold beginsWithWord at h
      rw [Bool.and_eq_true] at h
      exact .inl h.1
    · exact .inr (ih h)

theorem occursAsWord_eq_false {w t : List Char} (h : occursIn w t = false) :
    occursAsWord isWordChar w t = false := by
  apply Bool.eq_false_iff.mpr
  intro hword
  rw [occursIn_of_occursAsWordAfter hword] at h
  cases h

theorem occursIn_eq_false_of_mem {w t : List Char} {c : Char} (hw : c ∈ w) (ht : c ∉ t) :
    occursIn w t = false := by
  apply Bool.eq_false_iff.mpr
  intro h
  obtain ⟨a, b, rfl⟩ := occursIn_iff.mp h
  apply ht
  simp [hw]

theorem occursIn_refl (t : List Char) : occursIn t t = true := occursIn_iff.mpr ⟨[], [], by simp⟩

theorem occursIn_trans {u w t : List Char} (hw : occursIn u w = true) (ht : occursIn w t = true) :
    occursIn u t = true := by
  obtain ⟨a, b, rfl⟩ := occursIn_iff.mp hw
  obtain ⟨front, rest, rfl⟩ := occursIn_iff.mp ht
  exact occursIn_iff.mpr ⟨front ++ a, b ++ rest, by simp⟩

end HostReach.Chars
