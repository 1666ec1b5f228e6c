import HostReach.Json.Printer
import HostReach.Text.Quoted
import HostReach.Text.Utf8

/-!
Why a text is refused, where, and in which words. A fault remembers the text that was left when it
was found; lines and columns are computed from that only for the message.
-/
namespace HostReach.Json

inductive Found where
  | null
  | bool (b : Bool)
  | int (n : Int)
  | real (x : Binary64)
  | text (s : String)
  | sequence
  | map
  deriving DecidableEq, Repr

def Found.describe : Found → String
  | .null => "null"
  | .bool b => "boolean `" ++ (if b then "true" else "false") ++ "`"
  | .int n => "integer `" ++ Decimal.ofInt n ++ "`"
  | .real x => "floating point `" ++ realText x ++ "`"
  | .text s => "string " ++ Text.quoted s
  | .sequence => "sequence"
  | .map => "map"

inductive Cause where
  | endInValue
  | endInList
  | endInObject
  | endInText
  | expectedValue
  | expectedIdent
  | expectedColon
  | expectedListEnd
  | expectedObjectEnd
  | keyNotText
  | trailingComma
  | trailingCharacters
  | invalidNumber
  | numberOutOfRange
  | invalidEscape
  | loneSurrogate
  | unpairedSurrogate
  | controlCharacter
  | tooDeep
  | missingField (key : String)
  | duplicateField (key : String)
  | wrongType (found : Found) (expected : String)
  | wrongValue (found : Found) (expected : String)
  | wrongLength (length : Nat) (expected : String)
  | unknownVariant (name : String) (known : List String)
  deriving DecidableEq, Repr

def Cause.message : Cause → String
  | .endInValue => "EOF while parsing a value"
  | .endInList => "EOF while parsing a list"
  | .endInObject => "EOF while parsing an object"
  | .endInText => "EOF while parsing a string"
  | .expectedValue => "expected value"
  | .expectedIdent => "expected ident"
  | .expectedColon => "expected `:`"
  | .expectedListEnd => "expected `,` or `]`"
  | .expectedObjectEnd => "expected `,` or `\x7d`"
  | .keyNotText => "key must be a string"
  | .trailingComma => "trailing comma"
  | .trailingCharacters => "trailing characters"
  | .invalidNumber => "invalid number"
  | .numberOutOfRange => "number out of range"
  | .invalidEscape => "invalid escape"
  | .loneSurrogate => "lone leading surrogate in hex escape"
  | .unpairedSurrogate => "unexpected end of hex escape"
  | .controlCharacter => "control character (\\u0000-\\u001F) found while parsing a string"
  | .tooDeep => "recursion limit exceeded"
  | .missingField k => "missing field `" ++ k ++ "`"
  | .duplicateField k => "duplicate field `" ++ k ++ "`"
  | .wrongType f e => "invalid type: " ++ f.describe ++ ", expected " ++ e
  | .wrongValue f e => "invalid value: " ++ f.describe ++ ", expected " ++ e
  | .wrongLength n e => "invalid length " ++ Decimal.ofNat n ++ ", expected " ++ e
  | .unknownVariant x ks =>
    "unknown variant `" ++ x ++ "`, expected one of " ++
      ", ".intercalate (ks.map fun k => "`" ++ k ++ "`")

/-- A refusal: the text left when it was found, and how many bytes of that text were already looked
at. -/
structure Fault where
  cause : Cause
  rest : List Char
  ahead : Nat
  deriving DecidableEq, Repr

namespace Fault

def here (cause : Cause) (rest : List Char) : Fault := ⟨cause, rest, 0⟩

def next (cause : Cause) (rest : List Char) : Fault := ⟨cause, rest, if rest.isEmpty then 0 else 1⟩

/-- Line and column after `offset` bytes of a text: a newline starts a line at column 0. -/
def locate : List Char → Nat → Nat × Nat → Nat × Nat
  | [], _, p => p
  | c :: t, offset, (line, column) =>
    if offset == 0 then (line, column)
    else if c == '\n' then locate t (offset - 1) (line + 1, 0)
    else locate t (offset - c.utf8Size) (line, column + min offset c.utf8Size)

def position (text : List Char) (f : Fault) : Nat × Nat :=
  locate text (Utf8.size text - Utf8.size f.rest + f.ahead) (1, 0)

def message (text : List Char) (f : Fault) : String :=
  let (line, column) := f.position text
  f.cause.message ++ " at line " ++ Decimal.ofNat line ++ " column " ++ Decimal.ofNat column

end Fault

abbrev Read (α : Type) := Except Fault (α × List Char)

end HostReach.Json
