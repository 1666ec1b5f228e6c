import HostReach.Text.Blank

/-!
Trimming takes away the white space that surrounds a text, however much there is, and nothing else.
-/
namespace HostReach.Chars

theorem trimLeft_eq_nil_of_blank {w : List Char} (h : ∀ c ∈ w, isBlank c) : trimLeft w = [] := by
  have hleft := trimLeft_append_of_blank h []
  rwa [List.append_nil] at hleft

theorem trimRight_eq_nil_of_blank {w : List Char} (h : ∀ c ∈ w, isBlank c) : trimRight w = [] := by
  induction w with
  | nil => rfl
  | cons c w ih =>
    have hc : isBlank c = true := h c (by simp)
    rw [trimRight, ih fun d hd => h d (by simp [hd])]
    simp [hc]

theorem trimRight_append_of_blank (t : List Char) {w : List Char} (h : ∀ c ∈ w, isBlank c) :
    trimRight (t ++ w) = trimRight t := by
  induction t with
  | nil => exact trimRight_eq_nil_of_blank h
  | cons c t ih => rw [List.cons_append, trimRight, trimRight, ih]

theorem trimRight_append_singleton (t : List Char) {c : Char} (h : isBlank c = false) :
    trimRight (t ++ [c]) = t ++ [c] := by
  induction t with
  | nil => simp [trimRight, h]
  | cons d t ih =>
    rw [List.cons_append, trimRight, ih]
    cases t <;> rfl

theorem trimRight_cons {c : Char} (h : isBlank c = false) (t : List Char) :
    trimRight (c :: t) = c :: trimRight t := by
  rw [trimRight]
  cases trimRight t with
  | nil => simp [h]
  | cons d u => rfl

theorem trimLeft_cons {c : Char} (h : isBlank c = false) (t : List Char) :
    trimLeft (c :: t) = c :: t := by
  simp [trimLeft, h]

theorem trim_padded {w₁ w₂ : List Char} (h₁ : ∀ c ∈ w₁, isBlank c) (h₂ : ∀ c ∈ w₂, isBlank c)
    {first last : Char} (hfirst : isBlank first = false) (hlast : isBlank last = false)
    (t : List Char) :
    trim (w₁ ++ (first :: (t ++ [last])) ++ w₂) = first :: (t ++ [last]) := by
  unfold trim
  rw [List.append_assoc, trimLeft_append_of_blank h₁, List.cons_append, trimLeft_cons hfirst,
    ← List.cons_append, trimRight_append_of_blank _ h₂, ← List.cons_append,
    trimRight_append_singleton _ hlast]

theorem trim_append_of_blank (t : List Char) {w : List Char} (h : ∀ c ∈ w, isBlank c) :
    trim (t ++ w) = trim t := by
  unfold trim
  induction t with
  | nil =>
    rw [List.nil_append, trimLeft_eq_nil_of_blank h]
    rfl
  | cons c t ih =>
    by_cases hc : isBlank c = true
    · simpa [trimLeft, hc] using ih
    · have hc : isBlank c = false := by simpa using hc
      rw [List.cons_append, trimLeft_cons hc, trimLeft_cons hc, ← List.cons_append,
        trimRight_append_of_blank _ h]

theorem trimRight_append (a : List Char) {t : List Char} (hne : t ≠ []) (h : trimRight t = t) :
    trimRight (a ++ t) = a ++ t := by
  induction a with
  | nil => exact h
  | cons c a ih =>
    rw [List.cons_append, trimRight, ih]
    split
    · rename_i hnil
      simp [hne] at hnil
    · rfl

theorem trimRight_sublist (t : List Char) : (trimRight t).Sublist t := by
  induction t with
  | nil => exact List.Sublist.refl _
  | cons c t ih =>
    rw [trimRight]
    split
    · split
      · exact List.nil_sublist _
      · exact (List.nil_sublist t).cons_cons c
    · exact ih.cons_cons c

theorem mem_of_mem_trim {t : List Char} {c : Char} (h : c ∈ trim t) : c ∈ t :=
  ((trimRight_sublist (trimLeft t)).trans (List.dropWhile_sublist _)).subset h

theorem trimRight_trimRight (t : List Char) : trimRight (trimRight t) = trimRight t := by
  induction t with
  | nil => rfl
  | cons c t ih =>
    rw [trimRight]
    cases ht : trimRight t with
    | nil => by_cases hc : isBlank c = true <;> simp [hc, trimRight]
    | cons d u =>
      rw [ht] at ih
      rw [trimRight, ih]

theorem trim_trim (t : List Char) : trim (trim t) = trim t := by
  induction t with
  | nil => rfl
  | cons c t ih =>
    by_cases hc : isBlank c = true
    · simpa [trim, trimLeft, hc] using ih
    · rw [Bool.not_eq_true] at hc
      have htrim : trim (c :: t) = c :: trimRight t := by
        rw [trim, trimLeft_cons hc, trimRight_cons hc]
      rw [htrim, trim, trimLeft_cons hc, trimRight_cons hc, trimRight_trimRight]

theorem trimRight_of_trim {t : List Char} (h : trim t = t) : trimRight t = t := by
  rw [← h, trim, trimRight_trimRight]

theorem trimLeft_append_of_notBlank {a : List Char} (h : ∃ c ∈ a, isBlank c = false)
    (b : List Char) :
    trimLeft (a ++ b) = trimLeft a ++ b := by
  induction a with
  | nil => simp at h
  | cons c a ih =>
    by_cases hc : isBlank c = true
    · simpa [trimLeft, hc] using ih (by simpa [hc] using h)
    · rw [Bool.not_eq_true] at hc
      rw [List.cons_append, trimLeft_cons hc, trimLeft_cons hc, List.cons_append]

theorem trim_eq_nil {t : List Char} : trim t = [] ↔ ∀ c ∈ t, isBlank c := by
  constructor
  · intro h
    induction t with
    | nil => simp
    | cons c t ih =>
      by_cases hc : isBlank c = true
      · have ht : trim t = [] := by simpa [trim, trimLeft, hc] using h
        simpa [hc] using ih ht
      · rw [Bool.not_eq_true] at hc
        rw [trim, trimLeft_cons hc, trimRight] at h
        split at h
        · simp [hc] at h
        · cases h
  · intro h
    rw [trim, trimLeft_eq_nil_of_blank h]
    rfl

end HostReach.Chars

namespace HostReach.Text

theorem isEmpty_trim (s : String) : (trim s).isEmpty = isBlank s := by
  rw [Bool.eq_iff_iff, isBlank, List.all_eq_true, ← Chars.trim_eq_nil]
  simp [trim]

theorem trim_trim (s : String) : trim (trim s) = trim s := by
  unfold trim
  rw [String.toList_ofList, Chars.trim_trim]

end HostReach.Text
