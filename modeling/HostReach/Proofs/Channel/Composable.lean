import HostReach.Proofs.Channel.Request

/-!
Every operation of a channel is made of the channel's own three: running a command, checking for one
and asking for the dialect. So a property of actions that sequencing keeps holds of an operation
where it holds of the commands behind that operation.
-/
namespace HostReach

variable {m : Type → Type} [Monad m]

/-- A property of actions that doing nothing has, and that doing one thing after the other keeps. -/
structure IsComposable (P : (α : Type) → m α → Prop) : Prop where
  pure : ∀ {α : Type} (a : α), P α (pure a)
  bind : ∀ {α β : Type} {x : m α} {f : α → m β}, P α x → (∀ a, P β (f a)) → P β (x >>= f)

namespace IsComposable

variable {P : (α : Type) → m α → Prop} {α β : Type}

theorem map [LawfulMonad m] (h : IsComposable P) (f : α → β) {x : m α}
    (hx : P α x) : P β (f <$> x) := by
  rw [← bind_pure_comp]
  exact h.bind hx fun a => h.pure (f a)

omit [Monad m] in
theorem ite {b : Bool} {x y : m α} (hx : P α x) (hy : P α y) : P α (if b then x else y) := by
  cases b
  · exact hy
  · exact hx

variable {c : Channel m} {ctx : Context}

theorem firstUnavailable (h : IsComposable P) (names : List String)
    (hcheck : ∀ name ∈ names, P Bool (c.isAvailable ctx name)) :
    P (Option Response) (c.firstUnavailable? ctx names) := by
  induction names with
  | nil => exact h.pure none
  | cons name names ih =>
    refine h.bind (hcheck name (by simp)) fun there => ite ?_ (h.pure _)
    exact ih fun n hn => hcheck n (by simp [hn])

theorem pidsOnPort (h : IsComposable P) {port : String} (hcheck : P Bool (c.isAvailable ctx "ss"))
    (hrun : P Response (c.run ctx "ss" (Socket.listenArgs port))) :
    P Found (c.pidsOnPort ctx port) := by
  refine h.bind hcheck fun there => ite (h.pure _) ?_
  exact h.bind hrun fun r => ite (h.pure _) (h.pure _)

theorem pidsOnEach (h : IsComposable P) (ports : List String)
    (hport : ∀ port ∈ ports, P Found (c.pidsOnPort ctx port)) :
    P Found (c.pidsOnEach ctx ports) := by
  induction ports with
  | nil => exact h.pure _
  | cons port ports ih =>
    refine h.bind (hport port (by simp)) fun found => ?_
    cases found with
    | error e => exact h.pure _
    | ok pids =>
      refine h.bind (ih fun p hp => hport p (by simp [hp])) fun more => ?_
      cases more with
      | error e => exact h.pure _
      | ok more => exact h.pure _

theorem pidsByCommandLine [LawfulMonad m] (h : IsComposable P) {keyword : String}
    (hplatform : P Platform (c.platform ctx))
    (hrun : ∀ p : Platform,
      P Response
      (c.run ctx "ps" (Lookup.psPipeline p.psArgs (Text.trim keyword) ctx c.selfMarkers))) :
    P Found (c.pidsByCommandLine ctx keyword) := by
  refine ite (h.pure _) ?_
  rw [Channel.psArgs, bind_assoc]
  refine h.bind hplatform fun p => ?_
  rw [pure_bind]
  exact h.bind (hrun p) fun r => h.pure _

theorem pidsByName (h : IsComposable P) {name : String}
    (hrun : P Response
      (c.run ctx "pgrep" (Lookup.pgrepPipeline (Text.trim name) ctx c.selfMarkers))) :
    P Found (c.pidsByName ctx name) :=
  ite (h.pure _) (h.bind hrun fun _ => h.pure _)

/-- An operation has the property where the commands that it may run have it, each run by the
channel's own operation for it. -/
theorem answer [LawfulMonad m] (h : IsComposable P) (releasePath : String) {q : Request}
    (hrun : ∀ script args, q.operation.MayRun c.selfMarkers releasePath q.context script args →
      P Response (c.run q.context script args))
    (hcheck : ∀ name, q.operation.MayRun c.selfMarkers releasePath q.context "command"
      ("-v " ++ name) →
      P Bool (c.isAvailable q.context name))
    (hplatform : q.operation.MayRun c.selfMarkers releasePath q.context "awk"
        (Platform.releaseIdProgram ++ " " ++ releasePath) → P Platform (c.platform q.context)) :
    P Answer (c.answer q) := by
  obtain ⟨ctx, operation⟩ := q
  cases operation with
  | run script args => exact h.map _ (hrun _ _ ⟨rfl, rfl⟩)
  | isAvailable name => exact h.map _ (hcheck _ ⟨rfl, rfl⟩)
  | firstUnavailable names =>
    exact h.map _ (h.firstUnavailable names fun name hn => hcheck _ ⟨name, hn, rfl, rfl⟩)
  | pidsByCommandLine keyword =>
    exact h.map _
      (h.pidsByCommandLine (hplatform (.inl ⟨rfl, rfl⟩)) fun p => hrun _ _ (.inr ⟨p, rfl, rfl⟩))
  | pidsByName name => exact h.map _ (h.pidsByName (hrun _ _ ⟨rfl, rfl⟩))
  | pidsOnPort port =>
    exact h.map _ (h.pidsOnPort (hcheck _ (.inl ⟨rfl, rfl⟩)) (hrun _ _ (.inr ⟨rfl, rfl⟩)))
  | pidsOnPorts ports =>
    refine h.map _ (ite (h.pure _) (h.pidsOnEach ports fun port hp => ?_))
    exact h.pidsOnPort (hcheck _ ⟨port, hp, .inl ⟨rfl, rfl⟩⟩) (hrun _ _ ⟨port, hp, .inr ⟨rfl, rfl⟩⟩)
  | platform => exact h.map _ (hplatform ⟨rfl, rfl⟩)
  | psArgs => exact h.map _ (h.bind (hplatform ⟨rfl, rfl⟩) fun _ => h.pure _)
  | isAlpine => exact h.map _ (h.bind (hplatform ⟨rfl, rfl⟩) fun _ => h.pure _)

end IsComposable

def Keeps {σ μ α : Type} (part : σ → μ) (x : StateM σ α) : Prop := ∀ s, part (x.run s).2 = part s

theorem Keeps.isComposable {σ μ : Type} (part : σ → μ) :
    IsComposable (m := StateM σ) fun _ x => Keeps part x where
  pure _ _ := rfl
  bind hx hf s := (hf _ _).trans (hx s)

end HostReach
