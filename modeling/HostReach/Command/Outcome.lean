import HostReach.Response.Envelope
import HostReach.Context

/-!
What an execution gave, and the response that it stands for.
-/
namespace HostReach

inductive Exit where
  | success
  /-- The program ended with a failure, described by the text. -/
  | failed (text : String)
  | timedOut (limit : Duration)
  | spawnFailed (text : String)
  deriving DecidableEq

/-- The captured output, both streams merged, and how the execution ended. -/
structure Outcome where
  output : String
  exit : Exit
  deriving DecidableEq

namespace Exit

def isSuccess : Exit → Bool
  | .success => true
  | _ => false

def errorText? : Exit → Option String
  | .success => none
  | .failed text => some text
  | .spawnFailed text => some text
  | .timedOut limit =>
    some ("signal: killed, command timed out after " ++ limit.secondsText ++ "s")

end Exit

namespace Outcome

def success (output : String) : Outcome := ⟨output, .success⟩

/-- What `tc` and `ip` print when a rule is already in place. -/
def ruleExists : String := "RTNETLINK answers: File exists"

/-- The response of an execution of `command`. A rule already in place has a code of its own; output
that is an envelope is relayed; other output is the result of a success or part of the message of a
failure, to which a nested invocation of the tool itself adds nothing. -/
def classify (command : String) (o : Outcome) (isSelf : Bool) : Response :=
  if !o.exit.isSuccess && Text.contains o.output ruleExists then .ofCode .networkRuleExists false
  else
    match Envelope.decode o.output with
    | .structured r => r
    | .raw _ _ =>
      match o.exit.errorText? with
      | none => .succeed (.text o.output)
      | some error =>
        .failWith .commandFailed [command, if isSelf then o.output else o.output ++ " " ++ error]

end Outcome

/-- The time an execution may take: the ceiling, or less if the deadline of the context comes
first. -/
def Context.limit (c : Context) (now : Instant) (ceiling : Duration) : Duration :=
  match c.deadline with
  | none => ceiling
  | some d => min ceiling (d.since now)

end HostReach
