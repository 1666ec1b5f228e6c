import HostReach.Proofs.Text.Cut
import HostReach.Shell.Word

/-!
The words of text without quotes and expansions. A separator keeps the words on its two sides apart,
and a backslash before a space makes the space a part of the word that is being read, so that a text
whose spaces are escaped is one word, whatever follows behind a separator.
-/
namespace HostReach.Shell

/-- A character that separates no words, unless it is the space, and quotes none. -/
def IsPlain (c : Char) : Prop := c ≠ '\\' ∧ (isSeparator c = true → c = ' ')

theorem isSeparator_space : isSeparator ' ' = true := rfl

variable {word : Option (List Char)}

theorem splitFrom_cons {c : Char} (hc : c ≠ '\\') (t : List Char) :
    splitFrom word (c :: t) =
      if isSeparator c then (word.map List.reverse).toList ++ splitFrom none t
      else splitFrom (some (c :: word.getD [])) t := by
  rw [splitFrom]
  intro d u h _
  exact hc h

theorem splitFrom_append {a : List Char} (ha : '\\' ∉ a) {c : Char} (hc : isSeparator c = true)
    (b : List Char) :
    splitFrom word (a ++ c :: b) = splitFrom word a ++ splitFrom none b := by
  induction a generalizing word with
  | nil =>
    have hne : c ≠ '\\' := by
      rintro rfl
      cases hc
    rw [List.nil_append, splitFrom_cons hne, if_pos hc, splitFrom]
  | cons d a ih =>
    rw [List.mem_cons, not_or] at ha
    rw [List.cons_append, splitFrom_cons (Ne.symm ha.1), splitFrom_cons (Ne.symm ha.1)]
    split
    · rw [ih ha.2, List.append_assoc]
    · exact ih ha.2

theorem splitFrom_word {w : List Char} (hw : ∀ c ∈ w, c ≠ '\\' ∧ isSeparator c = false)
    (front : List Char) :
    splitFrom (some front) w = [front.reverse ++ w] := by
  induction w generalizing front with
  | nil => simp [splitFrom]
  | cons c w ih =>
    rw [List.forall_mem_cons] at hw
    rw [splitFrom_cons hw.1.1, if_neg (by simp [hw.1.2]), ih hw.2]
    simp

def escaped (c : Char) : List Char := if c == ' ' then ['\\', ' '] else [c]

theorem toList_escapeSpaces (s : String) :
    (Text.escapeSpaces s).toList = s.toList.flatMap escaped := by
  unfold Text.escapeSpaces
  rw [String.toList_ofList]
  rfl

theorem splitFrom_escaped {c : Char} (hc : IsPlain c) (t : List Char) :
    splitFrom word (escaped c ++ t) = splitFrom (some (c :: word.getD [])) t := by
  unfold escaped
  by_cases hspace : c = ' '
  · rw [if_pos (by simpa using hspace), hspace]
    rfl
  · have hseparator : ¬isSeparator c = true := mt hc.2 hspace
    rw [if_neg (by simpa using hspace), List.singleton_append, splitFrom_cons hc.1,
      if_neg hseparator]

theorem splitFrom_flatMap_escaped {s : List Char} (hs : ∀ c ∈ s, IsPlain c) (front t : List Char) :
    splitFrom (some front) (s.flatMap escaped ++ t) = splitFrom (some (s.reverse ++ front)) t := by
  induction s generalizing front with
  | nil => rfl
  | cons c s ih =>
    rw [List.forall_mem_cons] at hs
    rw [List.flatMap_cons, List.append_assoc, splitFrom_escaped hs.1, ih hs.2, List.reverse_cons,
      List.append_assoc]
    rfl

/-- A script with escaped spaces is one word, and the arguments behind it are split as they would be
alone. -/
theorem splitWords_escapeSpaces {script : String} (hne : script ≠ "")
    (hs : ∀ c ∈ script.toList, IsPlain c) (args : String) :
    splitWords (Text.escapeSpaces script ++ " " ++ args) = script :: splitWords args := by
  have htext : (Text.escapeSpaces script ++ " " ++ args).toList =
      script.toList.flatMap escaped ++ ' ' :: args.toList := by
    rw [String.toList_append, String.toList_append, toList_escapeSpaces, List.append_assoc]
    rfl
  obtain ⟨c, t, hscript⟩ := List.exists_cons_of_ne_nil (l := script.toList) (by simpa using hne)
  rw [hscript, List.forall_mem_cons] at hs
  have hspace : ' ' ≠ '\\' := by decide
  have hword : splitFrom none (script.toList.flatMap escaped ++ ' ' :: args.toList) =
      script.toList :: splitFrom none args.toList := by
    rw [hscript, List.flatMap_cons, List.append_assoc, splitFrom_escaped hs.1,
      splitFrom_flatMap_escaped hs.2, splitFrom_cons hspace, if_pos isSeparator_space]
    simp
  unfold splitWords
  rw [htext, hword, List.map_cons, String.ofList_toList]

theorem splitWords_append_space {script : String} (hs : ∀ c ∈ script.toList, IsPlain c)
    (args : String) :
    splitWords (script ++ " " ++ args) = splitWords script ++ splitWords args := by
  have hbackslash : '\\' ∉ script.toList := fun h => (hs _ h).1 rfl
  have htext : (script ++ " " ++ args).toList = script.toList ++ ' ' :: args.toList := by
    rw [String.toList_append, String.toList_append, List.append_assoc]
    rfl
  unfold splitWords
  rw [htext, splitFrom_append hbackslash isSeparator_space, List.map_append]

theorem splitFrom_piece {p : List Char} (hp : ∀ c ∈ p, c ≠ '\\' ∧ isSeparator c = false) :
    splitFrom none p = [p].filter fun w => !w.isEmpty := by
  cases p with
  | nil => rfl
  | cons c p =>
    rw [List.forall_mem_cons] at hp
    rw [splitFrom_cons hp.1.1, if_neg (by simp [hp.1.2]), splitFrom_word hp.2]
    rfl

theorem splitFrom_intercalate {pieces : List (List Char)}
    (h : ∀ p ∈ pieces, ∀ c ∈ p, c ≠ '\\' ∧ isSeparator c = false) :
    splitFrom none ([' '].intercalate pieces) = pieces.filter fun w => !w.isEmpty := by
  induction pieces with
  | nil => rfl
  | cons p pieces ih =>
    rw [List.forall_mem_cons] at h
    have hpiece := splitFrom_piece h.1
    cases pieces with
    | nil => simpa [List.intercalate] using hpiece
    | cons q pieces =>
      have hbackslash : '\\' ∉ p := fun hmem => (h.1 _ hmem).1 rfl
      rw [List.intercalate_cons_cons, List.append_assoc, List.singleton_append,
        splitFrom_append hbackslash isSeparator_space, ih h.2, hpiece, ← List.filter_append]
      rfl

/-- Spaces that are not escaped cut a text into its pieces; empty ones are no words. -/
theorem splitWords_eq {script : String} (hs : ∀ c ∈ script.toList, IsPlain c) :
    splitWords script = (Text.splitAt ' ' script).filter fun w => !w.isEmpty := by
  have hpieces : ∀ p ∈ Chars.splitAt ' ' script.toList, ∀ c ∈ p, c ≠ '\\' ∧
      isSeparator c = false := by
    intro p hp c hc
    obtain ⟨hbackslash, hseparator⟩ := hs c (Chars.mem_of_mem_splitAt p hp hc)
    refine ⟨hbackslash, Bool.eq_false_iff.mpr fun h => ?_⟩
    rw [hseparator h] at hc
    exact Chars.not_mem_of_mem_splitAt p hp hc
  have hsplit := splitFrom_intercalate hpieces
  rw [Chars.intercalate_splitAt] at hsplit
  unfold splitWords Text.splitAt
  rw [hsplit, List.filter_map]
  congr 1
  apply List.filter_congr
  intro w _
  cases w <;> simp [String.isEmpty_eq_false_iff]

theorem splitWords_eq_singleton_iff {script : String} (hne : script ≠ "")
    (hs : ∀ c ∈ script.toList, IsPlain c) :
    splitWords script = [script] ↔ ' ' ∉ script.toList := by
  rw [splitWords_eq hs]
  constructor
  · intro h
    have hmem : script ∈ (Text.splitAt ' ' script).filter fun w => !w.isEmpty := by
      rw [h]; exact List.mem_singleton_self _
    obtain ⟨p, hp, hscript⟩ := List.mem_map.mp (List.mem_filter.mp hmem).1
    rw [← hscript, String.toList_ofList]
    exact Chars.not_mem_of_mem_splitAt p hp
  · intro h
    unfold Text.splitAt
    rw [Chars.splitAt_of_not_mem h]
    simp [hne]

end HostReach.Shell
