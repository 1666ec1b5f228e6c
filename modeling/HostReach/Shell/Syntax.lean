import HostReach.Shell.Word

/-!
What scripts are made of: words of quoted and expanded parts, redirections, and commands. The text
of a script is its bytes, each held as the character of that code.
-/
namespace HostReach.Shell

inductive Treatment where
  | plain
  | length
  /-- Another text in place of a value that is not there. -/
  | orElse
  /-- Another text in place of a value that is there. -/
  | instead
  /-- As `orElse`, and the parameter gets that text as its value. -/
  | assign
  /-- A value that is not there ends the script. -/
  | demand
  /-- Leaves out the shortest or longest beginning that a pattern matches. -/
  | cutFront (longest : Bool)
  /-- Leaves out the shortest or longest end that a pattern matches. -/
  | cutBack (longest : Bool)
  | unknown
  deriving DecidableEq, Repr

/-- A parameter and what is asked of it. With a colon an empty value counts as none. -/
structure Reference where
  name : List Char
  treatment : Treatment := .plain
  colon : Bool := false
  deriving DecidableEq, Repr

/-- How a file is opened. Both ways of writing it anew do so even if there is one; an option takes
that from the first. -/
inductive Opening where
  | read
  | write
  | overwrite
  | append
  | both
  deriving DecidableEq, Repr

mutual

/-- A part of a word. What an unquoted expansion gives is cut into fields. -/
inductive Part where
  | text (t : List Char) (quoted : Bool)
  | parameter (r : Reference) (word : List Part) (quoted : Bool)
  | arithmetic (expression : List Part) (quoted : Bool)
  | substitution (c : Command) (quoted : Bool)

inductive Redirect where
  | file (descriptor : Nat) (way : Opening) (path : List Part)
  | copy (descriptor : Nat) (source : List Part)
  /-- Text that is part of the script, by its number. -/
  | document (descriptor : Nat) (number : Nat)

inductive Command where
  | list (cs : List Command)
  | simple (line : Nat) (assignments : List (List Char × List Part)) (words : List (List Part))
      (redirects : List Redirect)
  | redirected (line : Nat) (c : Command) (redirects : List Redirect)
  | both (first second : Command)
  | either (first second : Command)
  | negated (c : Command)
  | piped (first second : Command)
  | background (c : Command)
  | subshell (line : Nat) (c : Command)
  | loop (untilTrue : Bool) (condition body : Command)
  | each (line : Nat) (name : List Char) (words : List (List Part)) (body : Command)
  | branch (condition yes no : Command)
  | choose (line : Nat) (word : List Part) (cases : List (List (List Part) × Command))
  | define (name : List Char) (body : Command)

end

abbrev Word := List Part

instance : Inhabited Part := ⟨.text [] false⟩

instance : Inhabited Command := ⟨.list []⟩

def Command.isEmpty : Command → Bool
  | .list cs => cs.isEmpty
  | _ => false

def Part.isQuoted : Part → Bool
  | .text _ q => q
  | .parameter _ _ q => q
  | .arithmetic _ q => q
  | .substitution _ q => q

/-- The text of a word that is one unquoted text, which is how reserved words and names are
written. -/
def bareText? : Word → Option (List Char)
  | [.text t false] => some t
  | _ => none

def plainText (w : Word) : List Char :=
  w.flatMap fun
    | .text t _ => t
    | _ => []

def allArguments : Word := [.parameter { name := ['@'] } [] true]

def reservedWords : List String :=
  ["!", "case", "do", "done", "elif", "else", "esac", "fi", "for", "if", "in", "then",
    "until", "while", "\x7b", "\x7d"]

/-- The built-in commands whose faults end the script. -/
def specialNames : List String :=
  [".", ":", "break", "continue", "eval", "exec", "exit", "export", "local", "readonly",
    "return", "set", "shift", "times", "trap", "unset"]

end HostReach.Shell
