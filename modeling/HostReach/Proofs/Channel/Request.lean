import HostReach.Channel.Basic
import HostReach.Text.Search

/-!
Requests to a channel as data, so that a history of them can be reasoned about: which commands an
operation may run, and what every step of a history starts from and leaves behind.
-/
namespace HostReach

inductive Operation where
  | run (script args : String)
  | isAvailable (name : String)
  | firstUnavailable (names : List String)
  | pidsByCommandLine (keyword : String)
  | pidsByName (name : String)
  | pidsOnPort (port : String)
  | pidsOnPorts (ports : List String)
  | platform
  | psArgs
  | isAlpine

inductive Answer where
  | response (r : Response)
  | flag (b : Bool)
  | refusal (r : Option Response)
  | found (f : Found)
  | platform (p : Platform)
  | text (s : String)
  deriving DecidableEq

structure Request where
  context : Context
  operation : Operation

def Channel.answer {m : Type → Type} [Monad m] (c : Channel m) (q : Request) : m Answer :=
  match q.operation with
  | .run script args => .response <$> c.run q.context script args
  | .isAvailable name => .flag <$> c.isAvailable q.context name
  | .firstUnavailable names => .refusal <$> c.firstUnavailable? q.context names
  | .pidsByCommandLine keyword => .found <$> c.pidsByCommandLine q.context keyword
  | .pidsByName name => .found <$> c.pidsByName q.context name
  | .pidsOnPort port => .found <$> c.pidsOnPort q.context port
  | .pidsOnPorts ports => .found <$> c.pidsOnPorts q.context ports
  | .platform => .platform <$> c.platform q.context
  | .psArgs => .text <$> c.psArgs q.context
  | .isAlpine => .flag <$> c.isAlpine q.context

namespace Operation

def IsCheck (name script args : String) : Prop := script = "command" ∧ args = "-v " ++ name

def IsProbe (releasePath script args : String) : Prop :=
  script = "awk" ∧ args = Platform.releaseIdProgram ++ " " ++ releasePath

def IsPortQuery (port script args : String) : Prop :=
  IsCheck "ss" script args ∨ script = "ss" ∧ args = Socket.listenArgs port

/-- The commands, each a script with its arguments, that an operation may run. -/
def MayRun (markers : List String) (releasePath : String) (ctx : Context) :
    Operation → String → String → Prop
  | .run script args, s, a => s = script ∧ a = args
  | .isAvailable name, s, a => IsCheck name s a
  | .firstUnavailable names, s, a => ∃ name ∈ names, IsCheck name s a
  | .pidsByCommandLine keyword, s, a =>
      IsProbe releasePath s a ∨
        ∃ p : Platform, s = "ps" ∧ a = Lookup.psPipeline p.psArgs (Text.trim keyword) ctx markers
  | .pidsByName name, s, a => s = "pgrep" ∧ a = Lookup.pgrepPipeline (Text.trim name) ctx markers
  | .pidsOnPort port, s, a => IsPortQuery port s a
  | .pidsOnPorts ports, s, a => ∃ port ∈ ports, IsPortQuery port s a
  | .platform, s, a => IsProbe releasePath s a
  | .psArgs, s, a => IsProbe releasePath s a
  | .isAlpine, s, a => IsProbe releasePath s a

end Operation

structure HistoryStep (σ : Type) where
  request : Request
  before : σ
  answer : Answer
  after : σ

/-- The steps of requests that are answered one after the other from a state on. -/
def history {σ : Type} (answer : Request → StateM σ Answer) : List Request → σ →
    List (HistoryStep σ)
  | [], _ => []
  | q :: qs, s =>
      let done := (answer q).run s
      ⟨q, s, done.1, done.2⟩ :: history answer qs done.2

theorem run_of_mem_history {σ : Type} {answer : Request → StateM σ Answer}
    {qs : List Request} {s : σ} {step : HistoryStep σ} (h : step ∈ history answer qs s) :
    (answer step.request).run step.before = (step.answer, step.after) := by
  induction qs generalizing s with
  | nil => simp [history] at h
  | cons q qs ih =>
    rcases List.mem_cons.mp h with rfl | h
    · rfl
    · exact ih h

theorem run_of_history_eq {σ : Type} {answer : Request → StateM σ Answer}
    {qs : List Request} {s : σ} {earlier later : List (HistoryStep σ)} {step : HistoryStep σ}
    (h : history answer qs s = earlier ++ step :: later) :
    (answer step.request).run step.before = (step.answer, step.after) := by
  apply run_of_mem_history
  rw [h]
  exact List.mem_append_right _ List.mem_cons_self

end HostReach
