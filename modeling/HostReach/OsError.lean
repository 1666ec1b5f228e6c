import HostReach.Text.Decimal

/-!
The refusals of the operating system, with their numbers and texts.
-/
namespace HostReach

inductive OsError where
  | notPermitted
  | notFound
  | inputOutput
  | argumentsTooLong
  | accessDenied
  | busy
  | alreadyExists
  | notDirectory
  | isDirectory
  | noSpace
  | nameTooLong
  /-- A path with a zero byte never reaches the operating system. -/
  | nulByte
  deriving DecidableEq, Repr

namespace OsError

def number? : OsError → Option Nat
  | .notPermitted => some 1
  | .notFound => some 2
  | .inputOutput => some 5
  | .argumentsTooLong => some 7
  | .accessDenied => some 13
  | .busy => some 16
  | .alreadyExists => some 17
  | .notDirectory => some 20
  | .isDirectory => some 21
  | .noSpace => some 28
  | .nameTooLong => some 36
  | .nulByte => none

def text : OsError → String
  | .notPermitted => "Operation not permitted"
  | .notFound => "No such file or directory"
  | .inputOutput => "Input/output error"
  | .argumentsTooLong => "Argument list too long"
  | .accessDenied => "Permission denied"
  | .busy => "Device or resource busy"
  | .alreadyExists => "File exists"
  | .notDirectory => "Not a directory"
  | .isDirectory => "Is a directory"
  | .noSpace => "No space left on device"
  | .nameTooLong => "File name too long"
  | .nulByte => "file name contained an unexpected NUL byte"

def numbered (number : Nat) (text : String) : String :=
  text ++ " (os error " ++ Decimal.ofNat number ++ ")"

def message (e : OsError) : String :=
  match e.number? with
  | some n => numbered n e.text
  | none => e.text

end OsError

end HostReach
