import HostReach.Text.Search

/-!
Names, and words of text without quotes and expansions: these are cut at blanks, and a backslash
takes the next character as it is.
-/
namespace HostReach.Shell

def isNameStart (c : Char) : Bool :=
  ('a' ≤ c && c ≤ 'z') || ('A' ≤ c && c ≤ 'Z') || c == '_'

def isNameChar (c : Char) : Bool := isNameStart c || ('0' ≤ c && c ≤ '9')

def isName : List Char → Bool
  | [] => false
  | c :: t => isNameStart c && t.all isNameChar

def isSeparator (c : Char) : Bool := c == ' ' || c == '\t' || c == '\n'

/-- The words of text without quotes and expansions: `word` holds the characters of the word that is
being read, last one first, if one has begun. -/
def splitFrom (word : Option (List Char)) : List Char → List (List Char)
  | [] => (word.map List.reverse).toList
  | '\\' :: c :: t => splitFrom (some (c :: word.getD [])) t
  | c :: t =>
    if isSeparator c then (word.map List.reverse).toList ++ splitFrom none t
    else splitFrom (some (c :: word.getD [])) t

def splitWords (text : String) : List String := (splitFrom none text.toList).map String.ofList

end HostReach.Shell
