import HostReach.Json.Fault
import HostReach.Text.Decimal

/-!
Why an operation that gives no response failed.
-/
namespace HostReach

inductive Error where
  | commandFailed (text : String)
  /-- A utility is missing; `purpose` is what it was needed for. -/
  | toolNotFound (tool purpose : String)
  | invalidArgument (text : String)
  | invalidPid (pid : String) (fault : Decimal.Fault)
  | portLookup (port : String) (source : Error)
  | processNotFound (pid : UInt32)
  | config (text : String)
  | io (text : String)
  /-- The JSON text that was refused, with the fault. -/
  | json (text : String) (fault : Json.Fault)
  deriving DecidableEq

def Error.message : Error → String
  | .commandFailed text => text
  | .toolNotFound tool purpose => tool ++ " command not found, can't " ++ purpose
  | .invalidArgument text => text
  | .invalidPid pid fault => "invalid pid `" ++ pid ++ "`: " ++ fault.message
  | .portLookup port source => "failed to get pid by " ++ port ++ ", " ++ source.message
  | .processNotFound pid => "process " ++ Decimal.ofNat pid.toNat ++ " not found"
  | .config text => "Configuration error: " ++ text
  | .io text => "I/O error: " ++ text
  | .json text fault => "JSON error: " ++ fault.message text.toList

instance decEqExcept {ε α : Type} [DecidableEq ε] [DecidableEq α] : DecidableEq (Except ε α)
  | .ok a, .ok b => decidable_of_iff (a = b) ⟨congrArg _, Except.ok.inj⟩
  | .error e, .error f => decidable_of_iff (e = f) ⟨congrArg _, Except.error.inj⟩
  | .ok _, .error _ => isFalse nofun
  | .error _, .ok _ => isFalse nofun

end HostReach
