import HostReach.Error

/-!
Batches: one action for item after item, up to the first item that it fails for. What a batch does
is said by what the single actions do one after the other; behind a failure nothing happens any
more.
-/
namespace HostReach

/-- How the actions of a monad run: from a state to a state, with a result or with what cut the
action off. -/
structure Running (m : Type → Type) [Monad m] (σ ε : Type) where
  run : {α : Type} → m α → σ → Except ε α × σ
  run_pure : ∀ {α : Type} (a : α) (s : σ), run (pure a) s = (.ok a, s)
  run_bind_ok : ∀ {α β : Type} {x : m α} {f : α → m β} {s middle : σ} {a : α},
    run x s = (.ok a, middle) → run (x >>= f) s = run (f a) middle
  run_bind_error : ∀ {α β : Type} {x : m α} {f : α → m β} {s after : σ} {u : ε},
    run x s = (.error u, after) → run (x >>= f) s = (.error u, after)

namespace Running

def ofState (σ : Type) : Running (StateM σ) σ Empty where
  run x s := (.ok (x.run s).1, (x.run s).2)
  run_pure _ _ := rfl
  run_bind_ok h := by
    obtain ⟨hresult, hstate⟩ := Prod.mk.inj h
    cases hresult
    cases hstate
    rfl
  run_bind_error h := nomatch (Prod.mk.inj h).1

/-- What an action has done to the state stays when an exception cuts it off. -/
def ofExcept (σ ε : Type) : Running (ExceptT ε (StateM σ)) σ ε where
  run x s := x.run.run s
  run_pure _ _ := rfl
  run_bind_ok {_ _ x f s middle a} h := by
    rw [ExceptT.run_bind, StateT.run_bind, h]
    rfl
  run_bind_error {_ _ x f s after u} h := by
    rw [ExceptT.run_bind, StateT.run_bind, h]
    rfl

variable {m : Type → Type} [Monad m] {σ ε α β : Type} {r : Running m σ ε}

theorem exists_of_run_bind {x : m α} {f : α → m β} {s after : σ} {b : β}
    (h : r.run (x >>= f) s = (.ok b, after)) :
    ∃ a middle, r.run x s = (.ok a, middle) ∧ r.run (f a) middle = (.ok b, after) := by
  rcases hx : r.run x s with ⟨u | a, middle⟩
  · rw [r.run_bind_error hx] at h
    cases h
  · rw [r.run_bind_ok hx] at h
    exact ⟨a, middle, rfl, h⟩

variable [LawfulMonad m] {ι : Type} {act : ι → m α} {x : ι} {xs : List ι} {s middle after : σ}
    {a : α} {as : List α}

theorem run_mapM_cons (hx : r.run (act x) s = (.ok a, middle))
    (hxs : r.run (xs.mapM act) middle = (.ok as, after)) :
    r.run ((x :: xs).mapM act) s = (.ok (a :: as), after) := by
  rw [List.mapM_cons, r.run_bind_ok hx, r.run_bind_ok hxs, r.run_pure]

theorem exists_of_run_mapM_cons (h : r.run ((x :: xs).mapM act) s = (.ok as, after)) :
    ∃ a rest middle, as = a :: rest ∧ r.run (act x) s = (.ok a, middle) ∧
      r.run (xs.mapM act) middle = (.ok rest, after) := by
  rw [List.mapM_cons] at h
  obtain ⟨a, middle, hx, h⟩ := exists_of_run_bind h
  obtain ⟨rest, last, hxs, h⟩ := exists_of_run_bind h
  rw [r.run_pure] at h
  cases h
  exact ⟨a, rest, middle, rfl, hx, hxs⟩

end Running

variable {m : Type → Type} [Monad m] {σ ε ι α β ρ γ : Type}

/-- What comes of an action that is done for one item after the other. It goes on after the results
that are made by `ok`, to the end of the items, and ends with the first item that has a result made
by `bad`; or it is cut off. -/
inductive InTurn (r : Running m σ ε) (act : ι → m α) (ok : β → α) (bad : ρ → α)
    (items : List ι) (s : σ) :
    Except ε (Except (ι × ρ) (List β)) → σ → Prop
  | all {results : List β} {after : σ}
    (hitems : r.run (items.mapM act) s = (.ok (results.map ok), after)) :
      InTurn r act ok bad items s (.ok (.ok results)) after
  | fails {before later : List ι} {x : ι} {results : List β} {failure : ρ} {middle after : σ}
      (heq : items = before ++ x :: later)
      (hbefore : r.run (before.mapM act) s = (.ok (results.map ok), middle))
      (hx : r.run (act x) middle = (.ok (bad failure), after)) :
      InTurn r act ok bad items s (.ok (.error (x, failure))) after
  | cutOff {before later : List ι} {x : ι} {results : List β} {u : ε} {middle after : σ}
      (heq : items = before ++ x :: later)
      (hbefore : r.run (before.mapM act) s = (.ok (results.map ok), middle))
      (hx : r.run (act x) middle = (.error u, after)) :
      InTurn r act ok bad items s (.error u) after

/-- An action for all of some items does what the actions for the single ones do in turn: it answers
by what comes of them, and leaves the state that they leave. -/
structure GoesInTurn (r : Running m σ ε) (act : ι → m α) (ok : β → α) (bad : ρ → α)
    (answer : Except (ι × ρ) (List β) → γ) (items : List ι) (whole : m γ) (s : σ) : Prop where
  ends : ∃ found after, InTurn r act ok bad items s found after
  run : ∀ found after, InTurn r act ok bad items s found after →
    r.run whole s = (found.map answer, after)

structure IsBatch (r : Running m σ ε) (act : ι → m α) (ok : β → α) (bad : ρ → α)
    (batch : List ι → m γ) (answer : Except (ι × ρ) (List β) → γ) : Prop where
  nil : ∀ s, r.run (batch []) s = (.ok (answer (.ok [])), s)
  goesOn : ∀ {x items s b middle found after}, r.run (act x) s = (.ok (ok b), middle) →
    r.run (batch items) middle = (Except.map answer found, after) →
    r.run (batch (x :: items)) s = (found.map fun f => answer (f.map (b :: ·)), after)
  ends : ∀ {x items s failure after}, r.run (act x) s = (.ok (bad failure), after) →
    r.run (batch (x :: items)) s = (.ok (answer (.error (x, failure))), after)
  isCutOff : ∀ {x items s u after}, r.run (act x) s = (.error u, after) →
    r.run (batch (x :: items)) s = (.error u, after)

section InTurn

variable [LawfulMonad m] {r : Running m σ ε} {act : ι → m α} {ok : β → α} {bad : ρ → α}
    {batch : List ι → m γ}
  {answer : Except (ι × ρ) (List β) → γ} {items : List ι} {s middle after : σ}
  {found : Except ε (Except (ι × ρ) (List β))}

theorem InTurn.cons {x : ι} {b : β} (hx : r.run (act x) s = (.ok (ok b), middle))
    (h : InTurn r act ok bad items middle found after) :
    InTurn r act ok bad (x :: items) s (found.map fun f => f.map (b :: ·)) after := by
  have hmore {others : List ι} {results : List β} {last : σ}
      (hothers : r.run (others.mapM act) middle = (.ok (results.map ok), last)) :
      r.run ((x :: others).mapM act) s = (.ok ((b :: results).map ok), last) :=
    Running.run_mapM_cons hx hothers
  cases h with
  | all hitems => exact .all (hmore hitems)
  | fails heq hbefore hfails => exact .fails (congrArg (x :: ·) heq) (hmore hbefore) hfails
  | cutOff heq hbefore hcut => exact .cutOff (congrArg (x :: ·) heq) (hmore hbefore) hcut

theorem exists_inTurn (hresult : ∀ a, (∃ b, a = ok b) ∨ ∃ e, a = bad e) (r : Running m σ ε)
    (act : ι → m α) (items : List ι) (s : σ) :
    ∃ found after, InTurn r act ok bad items s found after := by
  have hnone (s : σ) : r.run (List.mapM act []) s = (.ok (List.map ok []), s) := r.run_pure _ s
  induction items generalizing s with
  | nil => exact ⟨_, s, .all (hnone s)⟩
  | cons x items ih =>
    rcases hx : r.run (act x) s with ⟨u | a, middle⟩
    · exact ⟨_, middle, .cutOff rfl (hnone s) hx⟩
    · rcases hresult a with ⟨b, rfl⟩ | ⟨e, rfl⟩
      · obtain ⟨found, after, h⟩ := ih middle
        exact ⟨_, after, h.cons hx⟩
      · exact ⟨_, middle, .fails rfl (hnone s) hx⟩

/-- A batch goes through the items before a place as the single actions do, and from there on starts
anew. -/
theorem IsBatch.run_append (h : IsBatch r act ok bad batch answer) {before : List ι}
    {results : List β} (hbefore : r.run (before.mapM act) s = (.ok (results.map ok), middle))
    (hitems : r.run (batch items) middle = (found.map answer, after)) :
    r.run (batch (before ++ items)) s =
      (found.map fun f => answer (f.map (results ++ ·)), after) := by
  induction before generalizing s results with
  | nil =>
    rw [List.mapM_nil, r.run_pure] at hbefore
    obtain ⟨hresults, rfl⟩ := Prod.mk.inj hbefore
    obtain rfl : results = [] := by simpa using hresults.symm
    rw [List.nil_append, hitems]
    rcases found with u | ⟨e | bs⟩
    · rfl
    · rfl
    · rfl
  | cons x before ih =>
    obtain ⟨a, rest, next, hresults, hx, hbefore⟩ := Running.exists_of_run_mapM_cons hbefore
    obtain ⟨b, results, rfl, rfl, rfl⟩ := List.map_eq_cons_iff.mp hresults
    have hrest : r.run (batch (before ++ items)) next =
        (Except.map answer (found.map fun f => f.map (results ++ ·)), after) := by
      rw [ih hbefore]
      cases found <;> rfl
    rw [List.cons_append, h.goesOn hx hrest]
    rcases found with u | ⟨e | bs⟩
    · rfl
    · rfl
    · rfl

theorem IsBatch.goesInTurn (h : IsBatch r act ok bad batch answer)
    (hresult : ∀ a, (∃ b, a = ok b) ∨ ∃ e, a = bad e) (items : List ι) (s : σ) :
    GoesInTurn r act ok bad answer items (batch items) s where
  ends := exists_inTurn hresult r act items s
  run found after ht := by
    cases ht with
    | @all results after hitems =>
      have hend : r.run (batch []) after = (Except.map answer (.ok (.ok [])), after) := h.nil after
      have hrun := h.run_append hitems hend
      rw [List.append_nil] at hrun
      rw [hrun]
      simp [Except.map]
    | @fails before later x results failure middle after heq hbefore hx =>
      have hfails : r.run (batch (x :: later)) middle =
          (Except.map answer (.ok (.error (x, failure))), after) :=
        h.ends hx
      rw [heq]
      exact h.run_append hbefore hfails
    | @cutOff before later x results u middle after heq hbefore hx =>
      have hcut : r.run (batch (x :: later)) middle = (Except.map answer (.error u), after) :=
        h.isCutOff hx
      rw [heq]
      exact h.run_append hbefore hcut

end InTurn

end HostReach
