import HostReach.Command.Line
import HostReach.Proofs.Channel.Log

/-!
Which operations go by the dialect of the place where commands run, and what they do once it is
known. Such an operation asks for the dialect first, and the rest of it is an operation of a channel
whose dialect is that one; every other operation is the same whatever the dialect. What a channel
remembers of the dialects that it found is what the steps so far have found.
-/
namespace HostReach

/-- Whether an operation goes by the dialect. A lookup of a blank keyword is refused before that. -/
def Operation.asksDialect : Operation → Bool
  | .platform => true
  | .psArgs => true
  | .isAlpine => true
  | .pidsByCommandLine keyword => !(Text.trim keyword).isEmpty
  | _ => false

def Operation.tools : List String := ["command", "ss", "pgrep", "ps"]

theorem Operation.exists_head_of_mem_tools {script : String} (h : script ∈ tools) :
    ∃ c t, script.toList = c :: t ∧ c ≠ 'a' ∧ c ≠ ' ' := by
  simp only [tools, List.mem_cons, List.not_mem_nil, or_false] at h
  rcases h with rfl | rfl | rfl | rfl
  · exact ⟨'c', _, rfl, by decide, by decide⟩
  · exact ⟨'s', _, rfl, by decide, by decide⟩
  · exact ⟨'p', _, rfl, by decide, by decide⟩
  · exact ⟨'p', _, rfl, by decide, by decide⟩

theorem Operation.MayRun.run_or_tool {markers : List String} {releasePath script args : String}
    {ctx : Context} {operation : Operation}
    (h : operation.MayRun markers releasePath ctx script args)
    (hasks : operation.asksDialect = false)
    (hlookup : ∀ keyword, operation ≠ .pidsByCommandLine keyword) :
    operation = .run script args ∨ script ∈ tools := by
  cases operation with
  | run script args =>
    obtain ⟨rfl, rfl⟩ := h
    exact .inl rfl
  | isAvailable name => exact .inr (by simp [tools, h.1])
  | firstUnavailable names =>
    obtain ⟨name, -, hcheck⟩ := h
    exact .inr (by simp [tools, hcheck.1])
  | pidsByCommandLine keyword => exact absurd rfl (hlookup keyword)
  | pidsByName name => exact .inr (by simp [tools, h.1])
  | pidsOnPort port =>
    obtain hcheck | hlist := h
    · exact .inr (by simp [tools, hcheck.1])
    · exact .inr (by simp [tools, hlist.1])
  | pidsOnPorts ports =>
    obtain ⟨port, -, hcheck | hlist⟩ := h
    · exact .inr (by simp [tools, hcheck.1])
    · exact .inr (by simp [tools, hlist.1])
  | platform => cases hasks
  | psArgs => cases hasks
  | isAlpine => cases hasks

namespace Channel

section Knowing

variable {m : Type → Type} [Monad m] {c : Channel m}

def knowing (c : Channel m) (p : Platform) : Channel m := { c with platform := fun _ => return p }

theorem firstUnavailable_knowing (p : Platform) (ctx : Context) (names : List String) :
    (c.knowing p).firstUnavailable? ctx names = c.firstUnavailable? ctx names := by
  induction names with
  | nil => rfl
  | cons name names ih =>
    simp only [firstUnavailable?, ih]
    rfl

theorem pidsOnEach_knowing (p : Platform) (ctx : Context) (ports : List String) :
    (c.knowing p).pidsOnEach ctx ports = c.pidsOnEach ctx ports := by
  induction ports with
  | nil => rfl
  | cons port ports ih =>
    simp only [pidsOnEach, ih]
    rfl

theorem answer_of_not_asksDialect {q : Request} (h : q.operation.asksDialect = false)
    (p : Platform) :
    c.answer q = (c.knowing p).answer q := by
  obtain ⟨ctx, operation⟩ := q
  cases operation with
  | firstUnavailable names => simp only [answer, firstUnavailable_knowing]
  | pidsOnPorts ports => simp only [answer, pidsOnPorts, pidsOnEach_knowing]
  | pidsByCommandLine keyword =>
    have hblank : (Text.trim keyword).isEmpty = true := by simpa [Operation.asksDialect] using h
    simp only [answer, pidsByCommandLine, hblank, if_true]
  | platform => cases h
  | psArgs => cases h
  | isAlpine => cases h
  | _ => rfl

theorem answer_of_blank [LawfulMonad m] {q : Request} {keyword : String}
    (h : q.operation = .pidsByCommandLine keyword) (hasks : q.operation.asksDialect = false) :
    c.answer q = pure (.found (.error keywordIsBlank)) := by
  have hblank : (Text.trim keyword).isEmpty = true := by
    simpa [h, Operation.asksDialect] using hasks
  simp only [answer, h, pidsByCommandLine, hblank, if_true, map_pure]

theorem answer_of_asksDialect [LawfulMonad m] {q : Request} (h : q.operation.asksDialect = true) :
    c.answer q = c.platform q.context >>= fun p => (c.knowing p).answer q := by
  obtain ⟨ctx, operation⟩ := q
  cases operation with
  | pidsByCommandLine keyword =>
    have hkeyword : (Text.trim keyword).isEmpty = false := by simpa [Operation.asksDialect] using h
    simp [answer, pidsByCommandLine, psArgs, knowing, hkeyword]
    rfl
  | platform => simp [answer, knowing]
  | psArgs => simp [answer, psArgs, knowing]
  | isAlpine => simp [answer, isAlpine, knowing]
  | _ => cases h

end Knowing

variable {σ : Type} {c : Channel (StateM σ)} {p : Platform} {q : Request} {s : σ}

/-- What an operation that goes by the dialect `p` does from a state on: it answers by `p` alone, or
runs `ps` with the arguments of `p` and answers with what that finds. -/
def GoesBy (c : Channel (StateM σ)) (p : Platform) (q : Request) (s : σ)
    (done : Answer × σ) : Prop :=
  match q.operation with
  | .platform => done = (.platform p, s)
  | .psArgs => done = (.text p.psArgs, s)
  | .isAlpine => done = (.flag p.alpine, s)
  | .pidsByCommandLine keyword =>
      let ran := (c.run q.context "ps"
        (Lookup.psPipeline p.psArgs (Text.trim keyword) q.context c.selfMarkers)).run s
      done = (.found (c.pidsOfResponse ran.1), ran.2)
  | _ => False

theorem goesBy_knowing (h : q.operation.asksDialect = true) :
    c.GoesBy p q s (((c.knowing p).answer q).run s) := by
  obtain ⟨ctx, operation⟩ := q
  cases operation with
  | pidsByCommandLine keyword =>
    have hkeyword : (Text.trim keyword).isEmpty = false := by simpa [Operation.asksDialect] using h
    simp only [GoesBy, answer, pidsByCommandLine, hkeyword]
    rfl
  | platform => rfl
  | psArgs => rfl
  | isAlpine => rfl
  | _ => cases h

theorem goesBy_platform (h : q.operation.asksDialect = true) :
    let asked := (c.platform q.context).run s
    c.GoesBy asked.1 q asked.2 ((c.answer q).run s) := by
  rw [answer_of_asksDialect h]
  exact goesBy_knowing h

theorem probePlatform_run {run : Context → String → String → StateM σ Response} {ctx : Context}
    {path : String} {r : Response} {after : σ}
    (h : (run ctx "awk" (Platform.releaseIdProgram ++ " " ++ path)).run s = (r, after)) :
    (probePlatform run ctx .linux path false).run s = (platformOfResponse? .linux r, after) := by
  unfold probePlatform
  rw [if_neg (by decide), run_bind, h]
  rfl

theorem Logs.answer_of_not_asksDialect {ε : Type} {log : σ → List ε} {releasePath : String}
    {P : Context → String → String → ε → Prop} (h : c.Logs log releasePath P)
    (hasks : q.operation.asksDialect = false) (s : σ) :
    ∃ added, log ((c.answer q).run s).2 = log s ++ added ∧ ∀ e ∈ added, ∃ script args,
      P q.context script args e ∧
        (q.operation = .run script args ∨ script ∈ Operation.tools) := by
  obtain ⟨added, hlog, hadded⟩ := h.answer q s
  by_cases hlookup : ∃ keyword, q.operation = .pidsByCommandLine keyword
  · obtain ⟨keyword, hkeyword⟩ := hlookup
    rw [answer_of_blank hkeyword hasks]
    exact ⟨[], (List.append_nil _).symm, by simp⟩
  · refine ⟨added, hlog, fun e he => ?_⟩
    obtain ⟨script, args, hmay, hP⟩ := hadded e he
    exact ⟨script, args, hP, hmay.run_or_tool hasks (not_exists.mp hlookup)⟩

end Channel

def CommandLine.callsAwk (l : CommandLine) : Bool :=
  (l.args.getLast?.map fun text => "awk".toList.isPrefixOf text.toList).getD false

variable {σ : Type}

def HistoryStep.executed (lines : σ → List CommandLine) (step : HistoryStep σ) : List CommandLine :=
  (lines step.after).drop (lines step.before).length

/-- A step that goes by the dialect `p`: it executes the probes first, then does what an operation
that goes by `p` does, and in that calls `awk` no more. -/
def HistoryStep.Consults (c : Channel (StateM σ)) (lines : σ → List CommandLine)
    (step : HistoryStep σ) (probes : List CommandLine) (p : Platform) : Prop :=
  ∃ (middle : σ) (others : List CommandLine),
    lines middle = lines step.before ++ probes ∧
    c.GoesBy p step.request middle (step.answer, step.after) ∧
    lines step.after = lines middle ++ others ∧ ∀ l ∈ others, l.callsAwk = false

namespace HistoryStep

variable {c : Channel (StateM σ)} {lines : σ → List CommandLine} {step : HistoryStep σ}
  {probes : List CommandLine} {p : Platform}

theorem Consults.executed (h : step.Consults c lines probes p) :
    ∃ others, step.executed lines = probes ++ others ∧ ∀ l ∈ others, l.callsAwk = false := by
  obtain ⟨middle, others, hprobes, -, hothers, hquiet⟩ := h
  refine ⟨others, ?_, hquiet⟩
  rw [HistoryStep.executed, hothers, hprobes, List.append_assoc, List.drop_left]

theorem consults_of_platform (hasks : step.request.operation.asksDialect = true)
    (hstep : (c.answer step.request).run step.before = (step.answer, step.after))
    (hps : ∀ args s, ∃ ran, lines ((c.run step.request.context "ps" args).run s).2 =
      lines s ++ ran ∧
      ∀ l ∈ ran, l.callsAwk = false)
    (hprobes : lines ((c.platform step.request.context).run step.before).2 =
      lines step.before ++ probes) :
    step.Consults c lines probes ((c.platform step.request.context).run step.before).1 := by
  have hgoes := c.goesBy_platform hasks (s := step.before)
  rw [hstep] at hgoes
  obtain ⟨others, hothers, hquiet⟩ : ∃ others,
      lines step.after = lines ((c.platform step.request.context).run step.before).2 ++ others ∧
        ∀ l ∈ others, l.callsAwk = false := by
    unfold Channel.GoesBy at hgoes
    split at hgoes
    · exact ⟨[], by simp [(Prod.mk.inj hgoes).2], by simp⟩
    · exact ⟨[], by simp [(Prod.mk.inj hgoes).2], by simp⟩
    · exact ⟨[], by simp [(Prod.mk.inj hgoes).2], by simp⟩
    · rw [(Prod.mk.inj hgoes).2]
      exact hps _ _
    · cases hgoes
  exact ⟨_, others, hprobes, hgoes, hothers, hquiet⟩

theorem consults_of_memory {remembered found : Option Platform}
    (hasks : step.request.operation.asksDialect = true)
    (hstep : (c.answer step.request).run step.before = (step.answer, step.after))
    (hps : ∀ args s, ∃ ran, lines ((c.run step.request.context "ps" args).run s).2 =
      lines s ++ ran ∧
      ∀ l ∈ ran, l.callsAwk = false)
    (hknown : ∀ p, remembered = some p → (c.platform step.request.context).run step.before =
      (p, step.before))
    (hunknown : remembered = none →
      let asked := (c.platform step.request.context).run step.before
      asked.1 = found.getD (.standard .linux) ∧ lines asked.2 = lines step.before ++ probes) :
    step.Consults c lines (if remembered.isSome then [] else probes)
      ((remembered.or found).getD (.standard .linux)) := by
  cases remembered with
  | some p =>
    have hasked := hknown p rfl
    have hconsults : step.Consults c lines []
        ((c.platform step.request.context).run step.before).1 :=
      consults_of_platform hasks hstep hps (by rw [hasked, List.append_nil])
    rwa [hasked] at hconsults
  | none =>
    obtain ⟨hp, hlines⟩ := hunknown rfl
    have hconsults := consults_of_platform hasks hstep hps hlines
    rwa [hp] at hconsults

end HistoryStep

/-- Steps each of which finds the memory that the one before it left. -/
def Carries {μ : Type} (memory : σ → μ) : μ → List (HistoryStep σ) → Prop
  | _, [] => True
  | k, step :: steps => memory step.before = k ∧ Carries memory (memory step.after) steps

theorem carries_history {μ : Type} (memory : σ → μ) (answer : Request → StateM σ Answer)
    (qs : List Request) (s : σ) : Carries memory (memory s) (history answer qs s) := by
  induction qs generalizing s with
  | nil => trivial
  | cons q qs ih => exact ⟨rfl, ih _⟩

/-- If every step keeps what is remembered, and where nothing is remembers what it finds, then what
a step remembers from before it is what was remembered at first or else the first thing found
since. -/
theorem Carries.memory_before {memory : σ → Option Platform}
    {found : HistoryStep σ → Option Platform} {k : Option Platform}
    {earlier later : List (HistoryStep σ)} {step : HistoryStep σ}
    (h : Carries memory k (earlier ++ step :: later))
    (hfound : ∀ e ∈ earlier, memory e.after = (memory e.before).or (found e)) :
    memory step.before = k.or (earlier.findSome? found) := by
  -- The first step takes `k` to what the induction starts from for the others.
  induction earlier generalizing k with
  | nil => simpa using h.1
  | cons e earlier ih =>
    have hrest := ih h.2 fun e he => hfound e (List.mem_cons_of_mem _ he)
    rw [hrest, hfound e List.mem_cons_self, h.1, List.findSome?_cons, Option.or_assoc]
    cases found e <;> rfl

end HostReach
