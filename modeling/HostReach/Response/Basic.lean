import HostReach.Json.Printer
import HostReach.Response.Catalog

/-!
The uniform result of every operation, and its JSON text.
-/
namespace HostReach

structure Response where
  code : Int32
  success : Bool
  error : String
  result : Option Json.Value
  deriving DecidableEq, Repr, Inhabited

namespace Response

def succeed (result : Json.Value) : Response := ⟨ResultCode.ok.code, true, "", some result⟩

def succeedEmpty : Response := ⟨ResultCode.ok.code, true, "", none⟩

def ignore (result : Json.Value) : Response := ⟨ResultCode.ignored.code, false, "", some result⟩

def failStatus (status : Int32) (error : String) (result : Option Json.Value) : Response :=
  ⟨status, false, error, result⟩

def fail (c : ResultCode) (error : String) : Response := failStatus c.code error none

/-- A failure with the unfilled template as its error, or a plain success whatever the code. -/
def ofCode (c : ResultCode) (success : Bool) : Response :=
  if success then succeedEmpty else fail c c.template

def failWith (c : ResultCode) (flags : List String) : Response := fail c (c.render flags)

def failWithResult (c : ResultCode) (result : Json.Value) (flags : List String) : Response :=
  failStatus c.code (c.render flags) (some result)

def resultText? (r : Response) : Option String := r.result.bind Json.Value.text?

/-- The members of the JSON text, in order. An empty error and an absent result are left out. -/
def members (r : Response) : Json.Members :=
  .ofList <|
    [("code", .int r.code.toInt), ("success", .bool r.success)] ++
      (if r.error.isEmpty then [] else [("error", .text r.error)]) ++
      (match r.result with
       | none => []
       | some v => [("result", v)])

def toJson (r : Response) : Json.Value := .object r.members

def print (r : Response) : String := r.toJson.compact

def pretty (r : Response) : String := r.toJson.indented ['\t'] ++ "\n"

end Response

end HostReach
