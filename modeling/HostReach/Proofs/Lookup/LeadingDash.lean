import HostReach.Proofs.Lookup.Piece

/-!
What the commands of a pipeline may take for options. The pattern of a stage follows the flags, and
a program takes one that begins with a dash for another flag. The keyword alone is written so that
it never does; every other word stands in the text as it is.
-/
namespace HostReach.Lookup

/-- A word that no program takes for an option: it begins with a character, and that is no dash. -/
def IsNoOption (w : String) : Prop := ∃ ch ∈ w.toList.head?, ch ≠ '-'

instance (w : String) : Decidable (IsNoOption w) :=
  match h : w.toList.head? with
  | none => .isFalse (by simp [IsNoOption, h])
  | some ch => decidable_of_iff (ch ≠ '-') (by simp [IsNoOption, h])

theorem isNoOption_escapeDash (keyword : String) : IsNoOption (escapeDash keyword) ↔
    keyword ≠ "" := by
  unfold IsNoOption escapeDash
  cases h : keyword.toList with
  | nil => simp_all
  | cons ch t =>
    have hne : keyword ≠ "" := by simp [← String.toList_inj, h]
    by_cases hch : ch = '-' <;> simp [h, hch, hne]

namespace Stage

def pattern? : Stage → Option String
  | .keep w => some w
  | .drop w => some w
  | .field _ => none
  | .join => none

end Stage

theorem filterMap_pattern?_wordStages (kept dropped : List String) (n : Nat) :
    (wordStages kept dropped n).filterMap Stage.pattern? = kept ++ dropped := by
  have hkept : Stage.pattern? ∘ .keep = some := rfl
  have hdropped : Stage.pattern? ∘ .drop = some := rfl
  unfold wordStages
  simp [List.filterMap_append, List.filterMap_map, hkept, hdropped, Stage.pattern?]

/-- A text that begins with a command and goes on with stages that look for these patterns. -/
def LooksFor (text first : String) (patterns : List String) : Prop :=
  ∃ stages t, text.toList = first.toList ++ t ∧ IsPiped stages t ∧
  stages.filterMap Stage.pattern? = patterns

theorem looksFor_psPipeline (psArgs keyword : String) (c : Context) (markers : List String) :
    LooksFor (psPipeline psArgs keyword c markers) psArgs
      (keptWords keyword c ++ droppedWords c markers) := by
  obtain ⟨t, htext, ht⟩ := isPiped_psPipeline psArgs keyword c markers
  exact ⟨_, t, htext, ht, filterMap_pattern?_wordStages _ _ 2⟩

theorem looksFor_pgrepPipeline (name : String) (c : Context) (markers : List String) :
    LooksFor (pgrepPipeline name c markers) ("-l " ++ name) (c.excludes ++ markers) := by
  obtain ⟨t, htext, ht⟩ := isPiped_pgrepPipeline name c markers
  exact ⟨_, t, by rw [htext, String.toList_append], ht, filterMap_pattern?_wordStages [] _ 1⟩

def patternsIn (text : String) : List String :=
  (pieces text).tail.filterMap fun p => (Stage.ofText? p.toList).bind Stage.pattern?

theorem patternsIn_of_pieces {text first : String} {stages : List Stage}
    (h : pieces text = first :: stages.map Stage.text) :
    patternsIn text = stages.filterMap Stage.pattern? := by
  unfold patternsIn
  rw [h, List.tail_cons, List.filterMap_map]
  simp only [Function.comp_def, Stage.ofText?_text, Option.bind_some]

/-- The texts of the pipelines give `grep` the shielded keyword, the filters, the excluded names,
`grep` and the markers as patterns, and `pgrep` the name; read back from texts whose words hold no
bar, these are the patterns. A keyword is no option in this form, unless it is empty. So nothing is
one just where no filter, no excluded name, no marker and not the name begins with a dash. -/
theorem all_noOption_iff (psArgs keyword name : String) (c : Context) (markers : List String) :
    let shielded := if keyword.toList.head? = some '-' then "\\" ++ keyword else keyword
    let psPatterns :=
      shielded ::
        (c.processFilter.toList ++ c.processCommand.toList ++ c.excludes ++ "grep" :: markers)
    let pgrepPatterns := c.excludes ++ markers
    let verbatim := c.processFilter.toList ++ c.processCommand.toList ++ c.excludes ++ markers
    (LooksFor (psPipeline psArgs keyword c markers) psArgs psPatterns ∧
      LooksFor (pgrepPipeline name c markers) ("-l " ++ name) pgrepPatterns) ∧
    ((∀ w ∈ psArgs :: keyword :: name :: verbatim, IsOperand w) →
      patternsIn (psPipeline psArgs keyword c markers) = psPatterns ∧
        patternsIn (pgrepPipeline name c markers) = pgrepPatterns) ∧
    (IsNoOption shielded ↔ keyword ≠ "") ∧
    ((∀ w ∈ psPatterns ++ name :: pgrepPatterns, IsNoOption w) ↔
      keyword ≠ "" ∧ ∀ w ∈ name :: verbatim, IsNoOption w) := by
  intro shielded psPatterns pgrepPatterns verbatim
  have hshielded : shielded = escapeDash keyword := by simp [shielded, escapeDash]
  have hpatterns : psPatterns = keptWords keyword c ++ droppedWords c markers := by
    simp [psPatterns, hshielded, keptWords, droppedWords]
  have hkeyword : IsNoOption shielded ↔ keyword ≠ "" := by rw [hshielded, isNoOption_escapeDash]
  refine ⟨⟨?_, looksFor_pgrepPipeline name c markers⟩, fun hwords => ?_, hkeyword, ?_⟩
  · rw [hpatterns]
    exact looksFor_psPipeline psArgs keyword c markers
  · simp only [verbatim, List.forall_mem_cons, List.forall_mem_append, Option.mem_toList] at hwords
    obtain ⟨hargs, hoperand, hname, ⟨⟨hfilter, hcommand⟩, hexcludes⟩, hmarkers⟩ := hwords
    have hnames := List.forall_mem_append.mpr ⟨hexcludes, hmarkers⟩
    rw [patternsIn_of_pieces (pieces_psPipeline hnames hargs hoperand hfilter hcommand),
      patternsIn_of_pieces (pieces_pgrepPipeline hnames hname), hpatterns]
    exact ⟨filterMap_pattern?_wordStages _ _ 2, filterMap_pattern?_wordStages [] _ 1⟩
  · have hgrep : IsNoOption "grep" := by decide
    simp only [psPatterns, pgrepPatterns, verbatim, List.forall_mem_append,
      List.forall_mem_cons, hkeyword]
    constructor
    · rintro ⟨⟨hset, hwords, -, hmarkers⟩, hname, -⟩
      exact ⟨hset, hname, hwords, hmarkers⟩
    · rintro ⟨hset, hname, ⟨hfilters, hexcludes⟩, hmarkers⟩
      exact ⟨⟨hset, ⟨hfilters, hexcludes⟩, hgrep, hmarkers⟩, hname, hexcludes, hmarkers⟩

/-- Of two words that begin with a dash the keyword is shielded, and the filter is not. -/
theorem all_noOption_iff_java_options :
    let c := ((Context.fresh 0).withProcessFilter "-Xmx1g").withExcludes ["nginx"]
    let psPatterns := ["\\-Dapp", "-Xmx1g", "nginx", "grep", "chaos"]
    (∀ w ∈ ["-ef", "-Dapp", "java", "-Xmx1g", "nginx", "chaos"], IsOperand w) ∧
      patternsIn (psPipeline "-ef" "-Dapp" c ["chaos"]) = psPatterns ∧ IsNoOption "\\-Dapp" ∧
      ¬∀ w ∈ psPatterns ++ "java" :: ["nginx", "chaos"], IsNoOption w := by
  intro c psPatterns
  have hwords : ∀ w ∈ ["-ef", "-Dapp", "java", "-Xmx1g", "nginx", "chaos"], IsOperand w := by
    intro w hw
    have h : Text.trim w = w ∧ w ≠ "" ∧ '|' ∉ w.toList := by
      revert w
      decide
    exact ⟨⟨h.1, h.2.1⟩, h.2.2⟩
  obtain ⟨-, hread, hkeyword, hall⟩ := all_noOption_iff "-ef" "-Dapp" "java" c ["chaos"]
  refine ⟨hwords, (hread hwords).1, hkeyword.mpr (by decide), fun h => ?_⟩
  have hfilter : IsNoOption "-Xmx1g" := (hall.mp h).2 "-Xmx1g" (by decide)
  exact absurd hfilter (by decide)

end HostReach.Lookup
