import HostReach.Json.Record
import HostReach.Response.Basic
import HostReach.Text.Blank

/-!
Reading a response back from text. Captured output may hold a response of a nested invocation, with
a version of the wire form; text that is none is kept with the reason.
-/
namespace HostReach

namespace Response

structure Draft where
  version : Option (Option Nat) := none
  code : Option Int32 := none
  success : Option Bool := none
  error : Option (Option String) := none
  result : Option (Option Json.Value) := none

def Draft.response (d : Draft) : Response where
  code := d.code.getD 0
  success := d.success.getD false
  error := (d.error.getD none).getD ""
  result := d.result.getD none

namespace Draft

open Json

def codeField : Json.Field Draft :=
  .of "code" false (·.code.isSome) (fun n d => { d with code := some (Int32.ofInt n) }) fun _ =>
    readInt "i32" (-Nat.pow 2 31) (Nat.pow 2 31 - 1)

def successField : Json.Field Draft :=
  .of "success" false (·.success.isSome) (fun b d => { d with success := some b }) fun _ => readBool

def resultField : Json.Field Draft :=
  .of "result" true (·.result.isSome)
    (fun v d => { d with result := some (v.map Value.normal) }) fun levels =>
    readOptional (Json.read levels)

def errorField : Json.Field Draft :=
  .of "error" true (·.error.isSome) (fun e d => { d with error := some (some e) }) fun _ =>
    readTextOf "a string"

def wireErrorField : Json.Field Draft :=
  .of "error" true (·.error.isSome) (fun e d => { d with error := some e }) fun _ =>
    readOptional (readTextOf "a string")

def versionField : Json.Field Draft :=
  .of "version" true (·.version.isSome)
    (fun v d => { d with version := some (v.map Int.toNat) }) fun _ =>
    readOptional (readInt "u32" 0 (Nat.pow 2 32 - 1))

def shape : Shape Draft := ⟨"Response", [codeField, successField, errorField, resultField]⟩

def wireShape : Shape Draft :=
  ⟨"WireEnvelope", [versionField, codeField, successField, wireErrorField, resultField]⟩

end Draft

def ofText (text : String) : Except Json.Fault Response :=
  (Draft.shape.ofText {} text).map Draft.response

def wireVersion : Nat := 1

end Response

inductive Envelope.Refusal where
  | malformed (fault : Json.Fault)
  | unsupportedVersion (version : Nat)
  deriving DecidableEq, Repr

def Envelope.Refusal.message (text : String) : Envelope.Refusal → String
  | .malformed f => f.message text.toList
  | .unsupportedVersion v =>
    "unsupported wire version " ++ Decimal.ofNat v ++ ", expected at most " ++
      Decimal.ofNat Response.wireVersion

/-- Captured text: a response, or the trimmed text with the reason why it is none. -/
inductive Envelope where
  | structured (response : Response)
  | raw (text : String) (reason : Envelope.Refusal)
  deriving DecidableEq, Repr

namespace Envelope

def decode (content : String) : Envelope :=
  let text := Text.trim content
  match Response.Draft.wireShape.ofText {} text with
  | .error f => .raw text (.malformed f)
  | .ok d =>
    match d.version.getD none with
    | some v =>
      if Response.wireVersion < v then .raw text (.unsupportedVersion v) else .structured d.response
    | none => .structured d.response

end Envelope

/-- Reads captured text as a response. Text that is none gives the default, or a failure that
carries the text and the reason. -/
def Response.decode (content : String) (default : Option Response) : Response :=
  match Envelope.decode content with
  | .structured r => r
  | .raw text reason =>
    default.getD (failWith .resultUnreadable [text, reason.message text])

end HostReach
