import HostReach.Proofs.Context.Frame
import HostReach.Proofs.Text.Cut

/-!
The names that a context excludes. Steps only add to them, and only names that are not blank,
without the white space at their ends, so that no context derived from a fresh one excludes anything
else. A list that is put together from two excludes what the one and then the other does.
-/
namespace HostReach.Context

/-- A name as excludes hold it: not blank, and with no white space at its ends. -/
structure IsCleanName (name : String) : Prop where
  trim_eq : Text.trim name = name
  ne_empty : name ≠ ""

theorem IsCleanName.isBlank_eq_false {name : String} (h : IsCleanName name) :
    Text.isBlank name = false := by
  have hne := h.ne_empty
  rw [← Text.isEmpty_trim, h.trim_eq]
  simpa using hne

theorem mem_cleanNames {names : List String} {n : String} :
    n ∈ cleanNames names ↔ ∃ m ∈ names, Text.isBlank m = false ∧ Text.trim m = n := by
  unfold cleanNames
  rw [List.mem_filter, List.mem_map]
  constructor
  · rintro ⟨⟨m, hm, rfl⟩, hne⟩
    rw [Text.isEmpty_trim, Bool.not_eq_true'] at hne
    exact ⟨m, hm, hne, rfl⟩
  · rintro ⟨m, hm, hblank, rfl⟩
    exact ⟨⟨m, hm, rfl⟩, by rw [Text.isEmpty_trim, hblank, Bool.not_false]⟩

theorem isCleanName_of_mem_cleanNames {names : List String} {n : String}
    (h : n ∈ cleanNames names) :
    IsCleanName n := by
  obtain ⟨m, -, hblank, rfl⟩ := mem_cleanNames.mp h
  refine ⟨Text.trim_trim m, fun hempty => ?_⟩
  rw [← Text.isEmpty_trim, hempty] at hblank
  cases hblank

theorem cleanNames_of_isCleanName {names : List String} (h : ∀ n ∈ names, IsCleanName n) :
    cleanNames names = names := by
  have htrim : names.map Text.trim = names := by
    rw [List.map_congr_left fun n hn => (h n hn).trim_eq, List.map_id']
  unfold cleanNames
  rw [htrim, List.filter_eq_self]
  intro n hn
  have hne := (h n hn).ne_empty
  simpa using hne

theorem cleanNames_subset {names others : List String} (h : names ⊆ others) :
    cleanNames names ⊆ cleanNames others := by
  intro n hn
  obtain ⟨m, hm, hblank, rfl⟩ := mem_cleanNames.mp hn
  exact mem_cleanNames.mpr ⟨m, h hm, hblank, rfl⟩

theorem cleanNames_append (first rest : List String) :
    cleanNames (first ++ rest) = cleanNames first ++ cleanNames rest := by
  simp [cleanNames]

theorem cleanNames_eq (names : List String) :
    cleanNames names = (names.filter fun n => !Text.isBlank n).map Text.trim := by
  unfold cleanNames
  rw [List.filter_map]
  congr 2
  funext n
  simp [Text.isEmpty_trim]

theorem cleanNames_flatMap {α : Type} (names : α → List String) (steps : List α) :
    (steps.flatMap fun a => cleanNames (names a)) = cleanNames (steps.flatMap names) := by
  induction steps with
  | nil => rfl
  | cons a steps ih => rw [List.flatMap_cons, List.flatMap_cons, cleanNames_append, ih]

theorem cleanNames_filter_notBlank (names : List String) :
    cleanNames (names.filter fun n => !Text.isBlank n) = cleanNames names := by
  rw [cleanNames_eq, cleanNames_eq, List.filter_filter]
  congr 2
  funext n
  rw [Bool.and_self]

def Step.excludedNames : Step → List String
  | .excludeList list => cleanNames (Text.splitAt ',' list)
  | .excluded names => cleanNames names
  | _ => []

theorem excludes_step {c next : Context} {now : Instant} {step : Step}
    (h : c.step? now step = some next) :
    next.excludes = c.excludes ++ step.excludedNames := by
  cases step with
  | excludeList list =>
    cases h
    rfl
  | excluded names =>
    cases h
    rfl
  | timeout span =>
    obtain ⟨t, -, rfl⟩ := Option.map_eq_some_iff.mp h
    exact (List.append_nil _).symm
  | processFilter word | processCommand word | destroy | deadline t | namespaceTarget target =>
    cases h
    exact (List.append_nil _).symm

theorem excludes_derive {c derived : Context} {steps : List TimedStep}
    (h : c.derive? steps = some derived) :
    derived.excludes = c.excludes ++ steps.flatMap fun t => t.step.excludedNames := by
  induction steps generalizing c with
  | nil =>
    cases h
    exact (List.append_nil _).symm
  | cons t ts ih =>
    obtain ⟨next, hnext, hderived⟩ := Option.bind_eq_some_iff.mp h
    rw [ih hderived, excludes_step hnext, List.append_assoc, List.flatMap_cons]

def Step.givenNames : Step → List String
  | .excludeList list => Text.splitAt ',' list
  | .excluded names => names
  | _ => []

theorem Step.excludedNames_eq (step : Step) : step.excludedNames = cleanNames step.givenNames := by
  cases step <;> rfl

theorem isCleanName_of_mem_excludedNames {step : Step} {n : String} (h : n ∈ step.excludedNames) :
    IsCleanName n := by
  rw [step.excludedNames_eq] at h
  exact isCleanName_of_mem_cleanNames h

theorem isCleanName_of_mem_excludes {requestId : Nat} {steps : List TimedStep} {c : Context}
    (h : (fresh requestId).derive? steps = some c) : ∀ n ∈ c.excludes, IsCleanName n := by
  intro n hn
  rw [excludes_derive h] at hn
  obtain ⟨t, -, ht⟩ := List.mem_flatMap.mp ((List.mem_append.mp hn).resolve_left List.not_mem_nil)
  exact isCleanName_of_mem_excludedNames ht

theorem splitAt_comma (a b : String) :
    Text.splitAt ',' (a ++ "," ++ b) = Text.splitAt ',' a ++ Text.splitAt ',' b := by
  have htext : (a ++ "," ++ b).toList = a.toList ++ ',' :: b.toList := by simp
  rw [Text.splitAt, htext, Chars.splitAt_append, List.map_append]
  rfl

theorem withExcludes_append (c : Context) (first rest : List String) :
    c.withExcludes (first ++ rest) = (c.withExcludes first).withExcludes rest := by
  simp only [withExcludes, cleanNames_append, List.append_assoc]

/-- A context derived from a fresh one excludes, in the order in which they were given, the names of
all lists and enumerations that are not blank, without the white space around them. Two lists with a
comma between them are one list. What is derived from the context by further steps belongs to the
same request and differs at most in the fields that these steps are for. -/
theorem excludes_composed {requestId : Nat} {steps : List TimedStep} {c : Context}
    (h : (fresh requestId).derive? steps = some c) :
    c.excludes =
      ((steps.flatMap fun t => t.step.givenNames).filter fun n => !Text.isBlank n).map Text.trim ∧
    (∀ n ∈ c.excludes, IsCleanName n) ∧
    (∀ a b, c.withExcludeList (a ++ "," ++ b) = (c.withExcludeList a).withExcludeList b) ∧
    c.requestId = requestId ∧
    ∀ more derived, c.derive? more = some derived →
    c.Keeps derived fun f => ∃ t ∈ more, t.step.field = f := by
  refine ⟨?_, isCleanName_of_mem_excludes h, fun a b => ?_, (keeps_derive h).requestId,
    fun _ _ => keeps_derive⟩
  · have hexcludes := excludes_derive h
    simp only [Step.excludedNames_eq, cleanNames_flatMap] at hexcludes
    rw [hexcludes, ← cleanNames_eq]
    rfl
  · unfold withExcludeList
    rw [splitAt_comma, withExcludes_append]

/-- Blank and padded names from a list and an enumeration, and a step for another field between
them. -/
theorem excludes_composed_list_and_names :
    let steps : List TimedStep :=
      [⟨.start, .excludeList " nginx, ,java,,"⟩, ⟨.start, .destroy⟩,
        ⟨.start, .excluded ["\u2003", "\ttail "]⟩]
    ∃ c, (fresh 7).derive? steps = some c ∧ c.excludes = ["nginx", "java", "tail"] ∧
    c.requestId = 7 ∧
      ∃ d, c.derive? [⟨.start, .timeout (.ofSeconds 5)⟩] = some d ∧ d.excludes = c.excludes ∧
        d.isDestroy = c.isDestroy := by
  intro steps
  have hreached : ∀ t ∈ steps, t.overflows = false := by decide
  obtain ⟨c, hc, -⟩ := exists_derive hreached (fresh 7)
  obtain ⟨hexcludes, -, -, hrequest, hkeeps⟩ := excludes_composed hc
  have hmore : ∀ t ∈ [(⟨.start, .timeout (.ofSeconds 5)⟩ : TimedStep)],
      t.overflows = false := by decide
  obtain ⟨d, hd, -⟩ := exists_derive hmore c
  have hkept := hkeeps _ d hd
  refine ⟨c, hc, ?_, hrequest, d, hd, hkept.agrees .excludes ?_, hkept.agrees .isDestroy ?_⟩
  · rw [hexcludes]
    decide +kernel
  · simp [Step.field]
  · simp [Step.field]

end HostReach.Context
