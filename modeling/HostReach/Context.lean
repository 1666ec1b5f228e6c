import HostReach.Text.Blank
import HostReach.Text.Search
import HostReach.Time

/-!
What one request carries to every operation: its deadline, the process whose namespaces are entered,
and the filters of its lookups. A context is derived from another by steps, which leave that one as
it is.
-/
namespace HostReach

structure NamespaceTarget where
  pid : UInt32
  entersPid : Bool
  entersMount : Bool
  entersNet : Bool
  deriving DecidableEq, Repr

structure Context where
  requestId : Nat
  deadline : Option Instant := none
  namespaceTarget : Option NamespaceTarget := none
  rawProcessFilter : Option String := none
  excludes : List String := []
  rawProcessCommand : Option String := none
  isDestroy : Bool := false
  deriving DecidableEq

namespace Context

def fresh (requestId : Nat) : Context := { requestId }

/-- An earlier deadline that is already there is kept. -/
def withDeadline (c : Context) (t : Instant) : Context :=
  { c with deadline := some (match c.deadline with
      | some d => min t d
      | none => t) }

/-- A deadline some time from now; none if the clock does not reach it. -/
def withTimeout? (c : Context) (now : Instant) (timeout : Duration) : Option Context :=
  (now.add? timeout).map c.withDeadline

def withNamespace (c : Context) (target : NamespaceTarget) : Context :=
  { c with namespaceTarget := some target }

def withProcessFilter (c : Context) (word : String) : Context :=
  { c with rawProcessFilter := some word }

def withProcessCommand (c : Context) (word : String) : Context :=
  { c with rawProcessCommand := some word }

def cleanNames (names : List String) : List String :=
  (names.map Text.trim).filter fun n => !n.isEmpty

def withExcludes (c : Context) (names : List String) : Context :=
  { c with excludes := c.excludes ++ cleanNames names }

def withExcludeList (c : Context) (list : String) : Context :=
  c.withExcludes (Text.splitAt ',' list)

def asDestroy (c : Context) : Context := { c with isDestroy := true }

def nonEmpty (word : Option String) : Option String := word.filter fun w => !w.isEmpty

def processFilter (c : Context) : Option String := nonEmpty c.rawProcessFilter

def processCommand (c : Context) : Option String := nonEmpty c.rawProcessCommand

inductive Step where
  | processFilter (word : String)
  | processCommand (word : String)
  | excludeList (list : String)
  | excluded (names : List String)
  | destroy
  | deadline (t : Instant)
  | timeout (d : Duration)
  | namespaceTarget (target : NamespaceTarget)

/-- The context that a step derives at a moment; none if its deadline is beyond the clock. -/
def step? (c : Context) (now : Instant) : Step → Option Context
  | .processFilter w => some (c.withProcessFilter w)
  | .processCommand w => some (c.withProcessCommand w)
  | .excludeList l => some (c.withExcludeList l)
  | .excluded ns => some (c.withExcludes ns)
  | .destroy => some c.asDestroy
  | .deadline t => some (c.withDeadline t)
  | .timeout d => c.withTimeout? now d
  | .namespaceTarget t => some (c.withNamespace t)

end Context

end HostReach
