import HostReach.Binary64.Layout
import HostReach.Json.Value

/-!
The text of a JSON value, on one line or indented.
-/
namespace HostReach.Json

/-- Numbers get an exponent outside `10 ^ -5` to `10 ^ 15`, and a whole number keeps a fraction
digit, so that it reads back as binary64. -/
def realLayout : Binary64.Layout where
  isPositional e := -5 ≤ e && e ≤ 15
  keepsFraction := true
  signsExponent := true
  tieGoesUp := false

def realText (x : Binary64) : String := String.ofList (realLayout.write x)

def hexDigit (n : Nat) : Char := Char.ofNat (if n < 10 then 48 + n else 87 + n)

def escaped (c : Char) : List Char :=
  if c == '\x22' || c == '\\' then ['\\', c]
  else if c == '\x08' then ['\\', 'b']
  else if c == '\t' then ['\\', 't']
  else if c == '\n' then ['\\', 'n']
  else if c == '\x0c' then ['\\', 'f']
  else if c == '\r' then ['\\', 'r']
  else if c < ' ' then ['\\', 'u', '0', '0', hexDigit (c.toNat / 16), hexDigit (c.toNat % 16)]
  else [c]

def quotedText (s : String) : List Char :=
  '\x22' :: s.toList.flatMap escaped ++ ['\x22']

/-- Where the parts of arrays and objects go: on one line, or each on a line of its own with one
unit of indentation per level. -/
inductive Style where
  | compact
  | indented (unit : List Char)
  deriving DecidableEq, Repr

def Style.lineBreak : Style → Nat → List Char
  | .compact, _ => []
  | .indented unit, depth => '\n' :: (List.replicate depth unit).flatten

def Style.colon : Style → List Char
  | .compact => [':']
  | .indented _ => [':', ' ']

mutual

def Value.write (s : Style) (depth : Nat) : Value → List Char
  | .null => ['n', 'u', 'l', 'l']
  | .bool true => ['t', 'r', 'u', 'e']
  | .bool false => ['f', 'a', 'l', 's', 'e']
  | .int n => (Decimal.ofInt n).toList
  | .real x => realLayout.write x
  | .text t => quotedText t
  | .array .nil => ['[', ']']
  | .array (.cons v vs) =>
    '[' :: s.lineBreak (depth + 1) ++ v.write s (depth + 1) ++ vs.writeRest s depth
  | .object .nil => ['\x7b', '\x7d']
  | .object (.cons k v ms) =>
    '\x7b' :: s.lineBreak (depth + 1) ++ quotedText k ++ s.colon ++ v.write s (depth + 1) ++
      ms.writeRest s depth

def Values.writeRest (s : Style) (depth : Nat) : Values → List Char
  | .nil => s.lineBreak depth ++ [']']
  | .cons v vs =>
    ',' :: s.lineBreak (depth + 1) ++ v.write s (depth + 1) ++ vs.writeRest s depth

def Members.writeRest (s : Style) (depth : Nat) : Members → List Char
  | .nil => s.lineBreak depth ++ ['\x7d']
  | .cons k v ms =>
    ',' :: s.lineBreak (depth + 1) ++ quotedText k ++ s.colon ++ v.write s (depth + 1) ++
      ms.writeRest s depth

end

def Value.compact (v : Value) : String := String.ofList (v.write .compact 0)

def Value.indented (unit : List Char) (v : Value) : String :=
  String.ofList (v.write (.indented unit) 0)

end HostReach.Json
