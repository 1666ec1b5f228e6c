import HostReach.Proofs.Json.ReadBack

/-!
How deep a reader may go: what it reads nests no deeper than that, and being allowed to go deeper
changes no answer but refusals. Together with reading back, a printed value that nests too deep is
refused.
-/
namespace HostReach.Json

theorem readValue_of_not_nested {t : List Char} (harray : ∀ u, skipSpace t ≠ '[' :: u)
    (hobject : ∀ u, skipSpace t ≠ '\x7b' :: u) (fuel levels : Nat) :
    readValue (fuel + 1) levels t = readValue 1 0 t := by
  rw [readValue, readValue]
  split
  case h_7 u hu => exact absurd hu (harray u)
  case h_8 u hu => exact absurd hu (hobject u)
  all_goals simp_all

def ReadsArray (fuel levels : Nat) (t : List Char) (v : Value) (r : List Char) : Prop :=
  (firstElement t = .ok (.done r) ∧ v = .array .nil) ∨
    ∃ u vs, firstElement t = .ok (.more u) ∧
    readElements fuel levels u = .ok (vs, r) ∧ v = .array vs

def ReadsObject (fuel levels : Nat) (t : List Char) (v : Value) (r : List Char) : Prop :=
  (firstMember t = .ok (.done r) ∧ v = .object .nil) ∨
    ∃ u ms, firstMember t = .ok (.more u) ∧ readMembers fuel levels u = .ok (ms, r) ∧ v = .object ms

theorem readValue_array_eq_ok {fuel levels : Nat} {t u r : List Char} {v : Value}
    (ht : skipSpace t = '[' :: u) :
    readValue (fuel + 1) levels t = .ok (v, r) ↔
      ∃ l, levels = l + 1 ∧ ReadsArray fuel l u v r := by
  rw [readValue, ht]
  constructor
  · intro h
    cases levels with
    | zero => simp at h
    | succ l =>
      refine ⟨l, rfl, ?_⟩
      simp only at h
      split at h
      · cases h
      · rename_i hfirst
        cases h
        exact .inl ⟨hfirst, rfl⟩
      · rename_i hfirst
        split at h
        · cases h
        · rename_i hread
          cases h
          exact .inr ⟨_, _, hfirst, hread, rfl⟩
  · rintro ⟨l, rfl, ⟨hfirst, rfl⟩ | ⟨u', vs, hfirst, hread, rfl⟩⟩
    · simp [hfirst]
    · simp [hfirst, hread]

theorem readValue_object_eq_ok {fuel levels : Nat} {t u r : List Char} {v : Value}
    (ht : skipSpace t = '\x7b' :: u) :
    readValue (fuel + 1) levels t = .ok (v, r) ↔
      ∃ l, levels = l + 1 ∧ ReadsObject fuel l u v r := by
  rw [readValue, ht]
  constructor
  · intro h
    cases levels with
    | zero => simp at h
    | succ l =>
      refine ⟨l, rfl, ?_⟩
      simp only at h
      split at h
      · cases h
      · rename_i hfirst
        cases h
        exact .inl ⟨hfirst, rfl⟩
      · rename_i hfirst
        split at h
        · cases h
        · rename_i hread
          cases h
          exact .inr ⟨_, _, hfirst, hread, rfl⟩
  · rintro ⟨l, rfl, ⟨hfirst, rfl⟩ | ⟨u', ms, hfirst, hread, rfl⟩⟩
    · simp [hfirst]
    · simp [hfirst, hread]

theorem readElements_eq_ok {fuel levels : Nat} {t r : List Char} {vs : Values} :
    readElements (fuel + 1) levels t = .ok (vs, r) ↔
      ∃ v u, readValue fuel levels t = .ok (v, u) ∧
        ((nextElement u = .ok (.done r) ∧ vs = .cons v .nil) ∨
          ∃ u' vs', nextElement u = .ok (.more u') ∧ readElements fuel levels u' = .ok (vs', r) ∧
            vs = .cons v vs') := by
  rw [readElements]
  constructor
  · intro h
    split at h
    · cases h
    · rename_i v u hvalue
      refine ⟨v, u, hvalue, ?_⟩
      split at h
      · cases h
      · rename_i hnext
        cases h
        exact .inl ⟨hnext, rfl⟩
      · rename_i hnext
        split at h
        · cases h
        · rename_i hread
          cases h
          exact .inr ⟨_, _, hnext, hread, rfl⟩
  · rintro ⟨v, u, hvalue, ⟨hnext, rfl⟩ | ⟨u', vs', hnext, hread, rfl⟩⟩
    · simp [hvalue, hnext]
    · simp [hvalue, hnext, hread]

theorem readMembers_eq_ok {fuel levels : Nat} {t r : List Char} {ms : Members} :
    readMembers (fuel + 1) levels t = .ok (ms, r) ↔
      ∃ k u₁ u₂ v u, readString t = .ok (k, u₁) ∧ readColon u₁ = .ok u₂ ∧
        readValue fuel levels u₂ = .ok (v, u) ∧
        ((nextMember u = .ok (.done r) ∧ ms = .cons k v .nil) ∨
          ∃ u' ms', nextMember u = .ok (.more u') ∧ readMembers fuel levels u' = .ok (ms', r) ∧
            ms = .cons k v ms') := by
  rw [readMembers]
  constructor
  · intro h
    split at h
    · cases h
    · rename_i k u₁ hkey
      split at h
      · cases h
      · rename_i u₂ hcolon
        split at h
        · cases h
        · rename_i v u hvalue
          refine ⟨k, u₁, u₂, v, u, hkey, hcolon, hvalue, ?_⟩
          split at h
          · cases h
          · rename_i hnext
            cases h
            exact .inl ⟨hnext, rfl⟩
          · rename_i hnext
            split at h
            · cases h
            · rename_i hread
              cases h
              exact .inr ⟨_, _, hnext, hread, rfl⟩
  · rintro ⟨k, u₁, u₂, v, u, hkey, hcolon, hvalue, ⟨hnext, rfl⟩ | ⟨u', ms', hnext, hread, rfl⟩⟩
    · simp [hkey, hcolon, hvalue, hnext]
    · simp [hkey, hcolon, hvalue, hnext, hread]

theorem Number.depth_value (n : Number) : n.value.depth = 0 := by
  cases n <;> rfl

theorem depth_of_not_nested {t r : List Char} {v : Value} (h : readValue 1 0 t = .ok (v, r)) :
    v.depth = 0 := by
  have of_map {α : Type} {read : Read α} {f : α × List Char → Value × List Char}
      (hf : ∀ p, (f p).1.depth = 0) (hread : read.map f = .ok (v, r)) : v.depth = 0 := by
    cases read with
    | error e => cases hread
    | ok p =>
      have hp : f p = (v, r) := Except.ok.inj hread
      rw [← hf p, hp]
  have of_word {word : List Char → Except Fault (List Char)} {u : List Char} {w : Value}
      (hw : w.depth = 0) (hread : (word u).map (fun t => (w, t)) = .ok (v, r)) : v.depth = 0 := by
    cases hword : word u with
    | error e =>
      rw [hword] at hread
      cases hread
    | ok p =>
      rw [hword] at hread
      cases hread
      exact hw
  rw [readValue] at h
  split at h
  · cases h
  · exact of_word rfl h
  · exact of_word rfl h
  · exact of_word rfl h
  · exact of_map (fun p => p.1.depth_value) h
  · exact of_map (fun _ => rfl) h
  · cases h
  · cases h
  · split at h
    · exact of_map (fun p => p.1.depth_value) h
    · cases h

/-- A value that is read is a scalar, which no level matters to, or the rest of an array or object
that takes one level. -/
theorem readValue_cases {fuel levels : Nat} {t r : List Char} {v : Value}
    (h : readValue (fuel + 1) levels t = .ok (v, r)) :
    (v.depth = 0 ∧ ∀ more, readValue (fuel + 1) more t = .ok (v, r)) ∨
      (∃ u l, skipSpace t = '[' :: u ∧ levels = l + 1 ∧ ReadsArray fuel l u v r) ∨
      ∃ u l, skipSpace t = '\x7b' :: u ∧ levels = l + 1 ∧ ReadsObject fuel l u v r := by
  by_cases harray : ∃ u, skipSpace t = '[' :: u
  · obtain ⟨u, hu⟩ := harray
    obtain ⟨l, hl, hread⟩ := (readValue_array_eq_ok hu).mp h
    exact .inr (.inl ⟨u, l, hu, hl, hread⟩)
  by_cases hobject : ∃ u, skipSpace t = '\x7b' :: u
  · obtain ⟨u, hu⟩ := hobject
    obtain ⟨l, hl, hread⟩ := (readValue_object_eq_ok hu).mp h
    exact .inr (.inr ⟨u, l, hu, hl, hread⟩)
  have hscalar := readValue_of_not_nested (not_exists.mp harray) (not_exists.mp hobject) fuel
  rw [hscalar] at h
  refine .inl ⟨depth_of_not_nested h, fun more => ?_⟩
  rw [hscalar, h]

/-- What is read nests no deeper than the levels that may be opened. -/
def DepthBounded (fuel : Nat) : Prop :=
  (∀ levels t v r, readValue fuel levels t = .ok (v, r) → v.depth ≤ levels) ∧
    (∀ levels t vs r, readElements fuel levels t = .ok (vs, r) → vs.depth ≤ levels) ∧
    ∀ levels t ms r, readMembers fuel levels t = .ok (ms, r) → ms.depth ≤ levels

theorem depthBounded (fuel : Nat) : DepthBounded fuel := by
  induction fuel with
  | zero => exact ⟨by simp [readValue], by simp [readElements], by simp [readMembers]⟩
  | succ fuel ih =>
    obtain ⟨hvalue, helements, hmembers⟩ := ih
    refine ⟨?_, ?_, ?_⟩
    · intro levels t v r h
      rcases readValue_cases h with ⟨hdepth, -⟩ | ⟨u, l, -, rfl, hread⟩ | ⟨u, l, -, rfl, hread⟩
      · omega
      · rcases hread with ⟨-, rfl⟩ | ⟨u', vs, -, hvs, rfl⟩
        · simp [Value.depth, Values.depth]
        · exact Nat.succ_le_succ (helements _ _ _ _ hvs)
      · rcases hread with ⟨-, rfl⟩ | ⟨u', ms, -, hms, rfl⟩
        · simp [Value.depth, Members.depth]
        · exact Nat.succ_le_succ (hmembers _ _ _ _ hms)
    · intro levels t vs r h
      obtain ⟨v, u, hv, ⟨-, rfl⟩ | ⟨u', vs', -, hvs, rfl⟩⟩ := readElements_eq_ok.mp h
      · exact Nat.max_le.mpr ⟨hvalue _ _ _ _ hv, Nat.zero_le _⟩
      · exact Nat.max_le.mpr ⟨hvalue _ _ _ _ hv, helements _ _ _ _ hvs⟩
    · intro levels t ms r h
      obtain ⟨k, u₁, u₂, v, u, -, -, hv, ⟨-, rfl⟩ | ⟨u', ms', -, hms, rfl⟩⟩ :=
        readMembers_eq_ok.mp h
      · exact Nat.max_le.mpr ⟨hvalue _ _ _ _ hv, Nat.zero_le _⟩
      · exact Nat.max_le.mpr ⟨hvalue _ _ _ _ hv, hmembers _ _ _ _ hms⟩

def LevelsSuffice (fuel : Nat) : Prop :=
  (∀ l m t v r, l ≤ m → readValue fuel l t = .ok (v, r) → readValue fuel m t = .ok (v, r)) ∧
    (∀ l m t vs r, l ≤ m → readElements fuel l t = .ok (vs, r) →
      readElements fuel m t = .ok (vs, r)) ∧
    ∀ l m t ms r, l ≤ m → readMembers fuel l t = .ok (ms, r) → readMembers fuel m t = .ok (ms, r)

theorem levelsSuffice (fuel : Nat) : LevelsSuffice fuel := by
  induction fuel with
  | zero => exact ⟨by simp [readValue], by simp [readElements], by simp [readMembers]⟩
  | succ fuel ih =>
    obtain ⟨hvalue, helements, hmembers⟩ := ih
    refine ⟨?_, ?_, ?_⟩
    · intro l m t v r hm h
      rcases readValue_cases h with ⟨-, hread⟩ | ⟨u, l, hu, rfl, hread⟩ | ⟨u, l, hu, rfl, hread⟩
      · exact hread m
      · obtain ⟨m, rfl⟩ := Nat.exists_eq_add_of_lt hm
        refine (readValue_array_eq_ok hu).mpr ⟨l + m, rfl, ?_⟩
        rcases hread with hempty | ⟨u', vs, hfirst, hvs, hv⟩
        · exact .inl hempty
        · exact .inr ⟨u', vs, hfirst, helements _ _ _ _ _ (by omega) hvs, hv⟩
      · obtain ⟨m, rfl⟩ := Nat.exists_eq_add_of_lt hm
        refine (readValue_object_eq_ok hu).mpr ⟨l + m, rfl, ?_⟩
        rcases hread with hempty | ⟨u', ms, hfirst, hms, hv⟩
        · exact .inl hempty
        · exact .inr ⟨u', ms, hfirst, hmembers _ _ _ _ _ (by omega) hms, hv⟩
    · intro l m t vs r hm h
      obtain ⟨v, u, hv, hnext⟩ := readElements_eq_ok.mp h
      refine readElements_eq_ok.mpr ⟨v, u, hvalue _ _ _ _ _ hm hv, ?_⟩
      rcases hnext with hdone | ⟨u', vs', hmore, hvs, heq⟩
      · exact .inl hdone
      · exact .inr ⟨u', vs', hmore, helements _ _ _ _ _ hm hvs, heq⟩
    · intro l m t ms r hm h
      obtain ⟨k, u₁, u₂, v, u, hkey, hcolon, hv, hnext⟩ := readMembers_eq_ok.mp h
      refine readMembers_eq_ok.mpr ⟨k, u₁, u₂, v, u, hkey, hcolon, hvalue _ _ _ _ _ hm hv, ?_⟩
      rcases hnext with hdone | ⟨u', ms', hmore, hms, heq⟩
      · exact .inl hdone
      · exact .inr ⟨u', ms', hmore, hmembers _ _ _ _ _ hm hms, heq⟩

theorem readValue_write_of_too_deep {s : Style} (hs : s.IsSpaced) {v : Value} (hv : v.isIntegral)
    {fuel levels : Nat} (depth : Nat) {rest : List Char} (hrest : EndsNumber rest)
    (hlevels : levels < v.depth) (hfuel : 2 * (v.write s depth).length ≤ fuel) :
    ∃ f, readValue fuel levels (v.write s depth ++ rest) = .error f := by
  have hback := v.readsBack hs hv fuel v.depth depth rest hrest (Nat.le_refl _) hfuel
  cases hread : readValue fuel levels (v.write s depth ++ rest) with
  | error f => exact ⟨f, rfl⟩
  | ok p =>
    -- Read with fewer levels than its depth, the value would be read the same with enough of them.
    obtain ⟨w, r⟩ := p
    have hsame := (levelsSuffice fuel).1 levels v.depth _ w r (Nat.le_of_lt hlevels) hread
    have hbound := (depthBounded fuel).1 levels _ w r hread
    rw [hback] at hsame
    cases hsame
    omega

end HostReach.Json
