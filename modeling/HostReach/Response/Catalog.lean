/-!
The result codes and their message templates. The places `%s` and `%v` of a template are filled in
order.
-/
namespace HostReach

structure ResultCode where
  code : Int32
  template : String
  deriving DecidableEq, Repr

namespace ResultCode

def ignored : ResultCode := ⟨100, "ignore code"⟩
def ok : ResultCode := ⟨200, "success"⟩
def okDirectly : ResultCode := ⟨201, "return ok directly"⟩
def illegalCommand : ResultCode := ⟨49000, "illegal command, err: %v"⟩
def networkRuleExists : ResultCode :=
  ⟨49001, "network tc exec failed! RTNETLINK answers: File exists"⟩
def binaryNotFound : ResultCode := ⟨51000, "`%s`: chaosblade file not found"⟩
def commandNotFound : ResultCode := ⟨52099, "`%s`: command not found"⟩
def resultUnreadable : ResultCode := ⟨60000, "`%s`: exec result unmarshal failed, err: %v"⟩
def resultUnwritable : ResultCode := ⟨60001, "`%v`: exec result marshal failed, err: %v"⟩
def processIdByNameFailed : ResultCode :=
  ⟨63010, "`%s`: get process id by name failed, err: %v"⟩
def processNotExist : ResultCode := ⟨63012, "`%s`: the process not exist"⟩
def processUserFailed : ResultCode :=
  ⟨63014, "`%s`: get username failed by the process id, err: %v"⟩
def commandFailed : ResultCode := ⟨63063, "`%s`: cmd exec failed, err: %v"⟩

/-- The utilities with a "not found" code of their own; the codes are consecutive in this order. -/
def utilities : List String :=
  ["taskset", "mount", "umount", "tc", "iptables", "sed", "cat", "ss", "dd", "rm", "touch", "mkdir",
    "echo", "kill", "mv", "head", "grep", "awk", "tar", "systemctl", "nohup"]

def firstUtilityCode : Nat := 52000

def utilityNotFound? (name : String) : Option ResultCode :=
  (utilities.idxOf? name).map fun i =>
    ⟨Int32.ofNat (firstUtilityCode + i), "`" ++ name ++ "`: command not found"⟩

/-- Fills the places of a template from the left. What stands in a flag is not looked at again, and
a percent sign that begins no place uses up a flag. -/
def fill : List Char → List String → List Char
  | [], _ => []
  | '%' :: 's' :: t, flag :: flags => flag.toList ++ fill t flags
  | '%' :: 'v' :: t, flag :: flags => flag.toList ++ fill t flags
  | '%' :: t, flags => '%' :: fill t flags.tail
  | c :: t, flags => c :: fill t flags

def render (c : ResultCode) (flags : List String) : String :=
  String.ofList (fill c.template.toList flags)

end ResultCode

end HostReach
