/-!
Occurrences of one text inside another, cutting at a separator, and substituting characters.
-/
namespace HostReach

namespace Chars

def occursIn (w : List Char) : List Char → Bool
  | [] => w.isEmpty
  | c :: t => w.isPrefixOf (c :: t) || occursIn w t

/-- The pieces between the separators, one more than there are separators. -/
def splitAt (sep : Char) : List Char → List (List Char)
  | [] => [[]]
  | c :: t =>
    if c == sep then [] :: splitAt sep t
    else
      match splitAt sep t with
      | [] => [[c]]
      | piece :: pieces => (c :: piece) :: pieces

def splitLast (sep : Char) (t : List Char) : Option (List Char × List Char) :=
  match t with
  | [] => none
  | c :: t =>
    match splitLast sep t with
    | some (before, after) => some (c :: before, after)
    | none => if c == sep then some ([], t) else none

theorem occursIn_iff {w t : List Char} : occursIn w t = true ↔ ∃ a b, t = a ++ w ++ b := by
  induction t with
  | nil =>
    constructor
    · intro h
      exact ⟨[], [], by simp_all [occursIn]⟩
    · rintro ⟨a, b, h⟩
      have h := h.symm
      simp_all [occursIn]
  | cons c t ih =>
    rw [occursIn, Bool.or_eq_true, ih, List.isPrefixOf_iff_prefix]
    constructor
    · rintro (⟨b, h⟩ | ⟨a, b, h⟩)
      · exact ⟨[], b, by simp [h]⟩
      · exact ⟨c :: a, b, by simp [h]⟩
    · rintro ⟨a, b, h⟩
      cases a with
      | nil => exact .inl ⟨b, by simpa using h.symm⟩
      | cons d a =>
        simp only [List.cons_append, List.cons.injEq] at h
        exact .inr ⟨a, b, by simpa using h.2⟩

end Chars

namespace Text

def contains (t w : String) : Bool := Chars.occursIn w.toList t.toList

def splitAt (sep : Char) (s : String) : List String :=
  (Chars.splitAt sep s.toList).map String.ofList

def escapeSpaces (s : String) : String :=
  String.ofList (s.toList.flatMap fun c => if c == ' ' then ['\\', ' '] else [c])

end Text

end HostReach
