/-!
White space as Unicode draws it, and the two things done with it: removing it from the ends of a
text and cutting a text into words. The functions on strings are the functions on character lists,
so laws are stated once, about lists.
-/
namespace HostReach

/-- The property `White_Space` of the Unicode character database. -/
def isBlank (c : Char) : Bool :=
  let n := c.toNat
  (9 ≤ n && n ≤ 13) || n == 0x20 || n == 0x85 || n == 0xA0 || n == 0x1680 ||
    (0x2000 ≤ n && n ≤ 0x200A) || n == 0x2028 || n == 0x2029 || n == 0x202F || n == 0x205F ||
    n == 0x3000

namespace Chars

def trimLeft (t : List Char) : List Char := t.dropWhile isBlank

def trimRight : List Char → List Char
  | [] => []
  | c :: t =>
    match trimRight t with
    | [] => if isBlank c then [] else [c]
    | r => c :: r

def trim (t : List Char) : List Char := trimRight (trimLeft t)

def firstWord : List Char → List Char × List (List Char)
  | [] => ([], [])
  | c :: t =>
    let (w, ws) := firstWord t
    if isBlank c then ([], if w.isEmpty then ws else w :: ws) else (c :: w, ws)

/-- The maximal runs of characters other than white space, in order. -/
def words (t : List Char) : List (List Char) :=
  let (w, ws) := firstWord t
  if w.isEmpty then ws else w :: ws

theorem trimLeft_append_of_blank {s : List Char} (h : ∀ c ∈ s, isBlank c) (t : List Char) :
    trimLeft (s ++ t) = trimLeft t := by
  induction s with
  | nil => rfl
  | cons c s ih =>
    have hc : isBlank c = true := h c (by simp)
    simpa [trimLeft, List.dropWhile_cons, hc] using ih fun d hd => h d (by simp [hd])

end Chars

namespace Text

def trim (s : String) : String := String.ofList (Chars.trim s.toList)

def words (s : String) : List String := (Chars.words s.toList).map String.ofList

def isBlank (s : String) : Bool := s.toList.all HostReach.isBlank

end Text

end HostReach
