import HostReach.Proofs.Text.Trim
import HostReach.Text.Search

/-!
Cutting a text made of known parts gives the parts back: at separators the pieces between them, at
white space the words.
-/
namespace HostReach.Chars

theorem splitAt_of_not_mem {sep : Char} {t : List Char} (h : sep ∉ t) : splitAt sep t = [t] := by
  induction t with
  | nil => rfl
  | cons c t ih =>
    simp only [List.mem_cons, not_or] at h
    rw [splitAt, if_neg (by simpa using Ne.symm h.1), ih h.2]

theorem splitAt_ne_nil (sep : Char) (t : List Char) : splitAt sep t ≠ [] := by
  cases t with
  | nil => simp [splitAt]
  | cons c t =>
    rw [splitAt]
    split
    · simp
    · split <;> simp

theorem splitAt_append (sep : Char) (a b : List Char) :
    splitAt sep (a ++ sep :: b) = splitAt sep a ++ splitAt sep b := by
  induction a with
  | nil => simp [splitAt]
  | cons c a ih =>
    rw [List.cons_append, splitAt, splitAt, ih]
    split
    · rfl
    · cases ha : splitAt sep a with
      | nil => exact absurd ha (splitAt_ne_nil sep a)
      | cons piece pieces => rfl

theorem not_mem_of_mem_splitAt {sep : Char} {t : List Char} : ∀ p ∈ splitAt sep t, sep ∉ p := by
  induction t with
  | nil => simp [splitAt]
  | cons c t ih =>
    rw [splitAt]
    split
    · simpa using ih
    · next hc =>
      cases ht : splitAt sep t with
      | nil => exact absurd ht (splitAt_ne_nil sep t)
      | cons piece pieces =>
        rw [ht, List.forall_mem_cons] at ih
        refine List.forall_mem_cons.mpr ⟨fun hmem => ?_, ih.2⟩
        rcases List.mem_cons.mp hmem with rfl | hmem
        · simp at hc
        · exact ih.1 hmem

theorem mem_of_mem_splitAt {sep : Char} {t : List Char} : ∀ p ∈ splitAt sep t, p ⊆ t := by
  induction t with
  | nil => simp [splitAt]
  | cons c t ih =>
    have htail : ∀ p ∈ splitAt sep t, p ⊆ c :: t := fun p hp =>
      List.subset_cons_of_subset c (ih p hp)
    rw [splitAt]
    split
    · exact List.forall_mem_cons.mpr ⟨List.nil_subset _, htail⟩
    · cases ht : splitAt sep t with
      | nil => exact absurd ht (splitAt_ne_nil sep t)
      | cons piece pieces =>
        rw [ht, List.forall_mem_cons] at htail
        exact List.forall_mem_cons.mpr
          ⟨List.cons_subset.mpr ⟨List.mem_cons_self, htail.1⟩, htail.2⟩

theorem intercalate_splitAt (sep : Char) (t : List Char) :
    [sep].intercalate (splitAt sep t) = t := by
  induction t with
  | nil => rfl
  | cons c t ih =>
    rw [splitAt]
    cases ht : splitAt sep t with
    | nil => exact absurd ht (splitAt_ne_nil sep t)
    | cons piece pieces =>
      rw [ht] at ih
      split
      · next hc =>
        rw [List.intercalate_cons_cons, ih, eq_of_beq hc]
        rfl
      · cases pieces with
        | nil => simpa [List.intercalate] using ih
        | cons p pieces => simpa [List.intercalate_cons_cons] using ih

theorem intercalate_concat {sep : List Char} {ps : List (List Char)} (h : ps ≠ []) (x : List Char) :
    sep.intercalate (ps ++ [x]) = sep.intercalate ps ++ (sep ++ x) := by
  induction ps with
  | nil => exact absurd rfl h
  | cons p ps ih =>
    cases ps with
    | nil => simp [List.intercalate]
    | cons q ps =>
      have hrest := ih (by simp)
      rw [List.cons_append] at hrest
      rw [List.cons_append, List.cons_append, List.intercalate_cons_cons,
        List.intercalate_cons_cons, hrest, ← List.append_assoc]

theorem splitAt_append_cons {sep : Char} {a : List Char} (h : sep ∉ a) (b : List Char) :
    splitAt sep (a ++ sep :: b) = a :: splitAt sep b := by
  induction a with
  | nil => simp [splitAt]
  | cons c a ih =>
    simp only [List.mem_cons, not_or] at h
    rw [List.cons_append, splitAt, if_neg (by simpa using Ne.symm h.1), ih h.2]

theorem splitAt_flatMap {sep : Char} {first : List Char} {rest : List (List Char)}
    (hfirst : sep ∉ first) (hrest : ∀ p ∈ rest, sep ∉ p) :
    splitAt sep (first ++ rest.flatMap (sep :: ·)) = first :: rest := by
  induction rest generalizing first with
  | nil => rw [List.flatMap_nil, List.append_nil, splitAt_of_not_mem hfirst]
  | cons p rest ih =>
    rw [List.forall_mem_cons] at hrest
    rw [List.flatMap_cons, List.cons_append, splitAt_append_cons hfirst, ih hrest.1 hrest.2]

theorem firstWord_append_cons {w : List Char} (hw : ∀ c ∈ w, isBlank c = false) {c : Char}
    (hc : isBlank c = true) (t : List Char) : firstWord (w ++ c :: t) = (w, words t) := by
  induction w with
  | nil => simp [firstWord, words, hc]
  | cons d w ih =>
    have hd : isBlank d = false := hw d (by simp)
    rw [List.cons_append, firstWord, ih fun e he => hw e (by simp [he])]
    simp [hd]

theorem words_append_cons {w : List Char} (hne : w ≠ [])
    (hw : ∀ c ∈ w, isBlank c = false) {c : Char} (hc : isBlank c = true)
    (t : List Char) : words (w ++ c :: t) = w :: words t := by
  rw [words, firstWord_append_cons hw hc]
  simp [hne]

theorem firstWord_append (a : List Char) {c : Char} (hc : isBlank c = true) (b : List Char) :
    firstWord (a ++ c :: b) = ((firstWord a).1, (firstWord a).2 ++ words b) := by
  induction a with
  | nil => simp [firstWord, words, hc]
  | cons d a ih =>
    rcases hword : firstWord a with ⟨w, ws⟩
    rw [hword] at ih
    rw [List.cons_append, firstWord, firstWord, ih, hword]
    by_cases hd : isBlank d = true
    · cases w <;> simp [hd]
    · simp [hd]

theorem words_append (a : List Char) {c : Char} (hc : isBlank c = true) (b : List Char) :
    words (a ++ c :: b) = words a ++ words b := by
  rcases hword : firstWord a with ⟨w, ws⟩
  rw [words.eq_def (a ++ c :: b), firstWord_append a hc, words.eq_def a, hword]
  cases w with
  | nil => rfl
  | cons d w => rfl

theorem words_blank_append {w : List Char} (h : ∀ c ∈ w, isBlank c = true) (t : List Char) :
    words (w ++ t) = words t := by
  induction w with
  | nil => rfl
  | cons c w ih =>
    rw [List.forall_mem_cons] at h
    have hwords := words_append [] h.1 (w ++ t)
    rw [List.nil_append, ih h.2] at hwords
    exact hwords

theorem words_of_blank {w : List Char} (h : ∀ c ∈ w, isBlank c = true) : words w = [] := by
  have hwords := words_blank_append h []
  rwa [List.append_nil] at hwords

theorem words_append_of_blank (a : List Char) {w : List Char} (h : ∀ c ∈ w, isBlank c = true) :
    words (a ++ w) = words a := by
  cases w with
  | nil => rw [List.append_nil]
  | cons c w =>
    rw [List.forall_mem_cons] at h
    rw [words_append a h.1, words_of_blank h.2, List.append_nil]

theorem words_of_word {w : List Char} (hne : w ≠ []) (hw : ∀ c ∈ w, isBlank c = false) :
    words w = [w] := by
  have hspace : isBlank ' ' = true := by decide
  have hwords := words_append_cons hne hw hspace []
  rwa [words_append_of_blank w (by simpa using hspace)] at hwords

theorem getLast?_words (a : List Char) {gap w after : List Char} (hgap : gap ≠ [])
    (hblank : ∀ c ∈ gap, isBlank c = true) (hne : w ≠ []) (hw : ∀ c ∈ w, isBlank c = false)
    (hafter : ∀ c ∈ after, isBlank c = true) :
    (words (a ++ gap ++ w ++ after)).getLast? = some w := by
  obtain ⟨front, c, rfl⟩ := List.eq_nil_or_concat gap |>.resolve_left hgap
  have hc : isBlank c = true := hblank c (by simp)
  have htext : a ++ front.concat c ++ w ++ after = (a ++ front) ++ c :: w ++ after := by simp
  rw [htext, words_append_of_blank _ hafter, words_append _ hc, words_of_word hne hw]
  simp

theorem words_flatMap_space {ws : List (List Char)} (hne : ∀ w ∈ ws, w ≠ [])
    (hws : ∀ w ∈ ws, ∀ c ∈ w, isBlank c = false) :
    words (ws.flatMap fun w => w ++ [' ']) = ws := by
  induction ws with
  | nil => rfl
  | cons w ws ih =>
    rw [List.flatMap_cons, List.append_assoc, List.singleton_append,
      words_append_cons (hne w (by simp)) (hws w (by simp)) (by decide),
      ih (fun v hv => hne v (by simp [hv])) fun v hv => hws v (by simp [hv])]

end HostReach.Chars
