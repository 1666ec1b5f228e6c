import HostReach.Proofs.Lookup.Agreement
import HostReach.Proofs.Lookup.Piece

/-!
A pipeline of `pgrep` and the rules of a query do not find the same processes by name: `pgrep` lists
every process in whose name the wanted one stands, and the pipeline sees names only, where the rules
look for excluded names in the command line.
-/
namespace HostReach.Lookup

def nameLine (p : RunningProcess) : List Char := (pidText p.pid).toList ++ ' ' :: p.name.toList

/-- The lines that `pgrep` prints for its arguments, which are `-l` and a name: those of all
processes in whose names that one stands. -/
def listing? (arguments : List Char) (table : List RunningProcess) : Option (List (List Char)) :=
  (Stage.after? "-l ".toList arguments).map fun name =>
    (table.filter fun p => Chars.occursIn name p.name.toList).map nameLine

def nameOutput? (isWordChar : Char → Bool) (pipeline : String) (table : List RunningProcess) :
    Option String :=
  (commands pipeline.toList).head?.bind fun arguments =>
    (listing? arguments table).bind fun lines => output? isWordChar pipeline lines

def IsLetters (w : String) : Prop := w.toList ≠ [] ∧ ∀ c ∈ w.toList, c.isAlpha = true

theorem IsLetters.isPlain {w : String} (hw : IsLetters w) : IsPlain w := by
  refine ⟨hw.1, fun c hc => ?_⟩
  rw [Char.isAlphanum, hw.2 c hc, Bool.true_or]

theorem IsPlain.isOperand {w : String} (hw : IsPlain w) : IsOperand w :=
  ⟨⟨hw.trim, by simpa using hw.1⟩, hw.notMem (by decide)⟩

theorem IsLetters.notIn_pidText {w : String} (hw : IsLetters w) (pid : UInt32) :
    Chars.occursIn w.toList (pidText pid).toList = false := by
  obtain ⟨c, t, ht⟩ := List.exists_cons_of_ne_nil hw.1
  have hc : c ∈ w.toList := by simp [ht]
  apply Chars.occursIn_eq_false_of_mem hc
  intro hdigit
  rw [toList_pidText] at hdigit
  have hdigit : c.isDigit = true := Decimal.isDigit_of_mem_digits hdigit
  rw [isDigit_of_isAlpha (hw.2 c hc)] at hdigit
  cases hdigit

structure IsWordTest (isWordChar : Char → Bool) : Prop where
  space : isWordChar ' ' = false
  letter : ∀ c, c.isAlpha = true → isWordChar c = true

section Line

variable {isWordChar : Char → Bool} (htest : IsWordTest isWordChar)

include htest

/-- A name of letters is a whole word of a line only as the name there. -/
theorem occursAsWord_nameLine {w : String} (hw : IsLetters w) {p : RunningProcess}
    (hp : IsLetters p.name) :
    Chars.occursAsWord isWordChar w.toList (nameLine p) = (p.name == w) := by
  have hname : ∀ c ∈ p.name.toList, isWordChar c = true := fun c hc => htest.letter c (hp.2 c hc)
  unfold nameLine
  rw [Chars.occursAsWord_append_cons hw.1 (hw.isPlain.notMem (by decide)) htest.space,
    Chars.occursAsWord_eq_false (hw.notIn_pidText p.pid),
    Chars.occursAsWord_of_wordChars hw.1 hname, Bool.false_or,
    Bool.eq_iff_iff, beq_iff_eq, beq_iff_eq, String.toList_inj]

theorem all_not_occursAsWord_nameLine {names : List String} (hnames : ∀ w ∈ names, IsLetters w)
    {p : RunningProcess} (hp : IsLetters p.name) :
    (names.all fun w => !Chars.occursAsWord isWordChar w.toList (nameLine p)) =
      !names.contains p.name := by
  rw [List.contains_eq_any_beq, List.not_any_eq_all_not, Bool.eq_iff_iff, List.all_eq_true,
    List.all_eq_true]
  apply forall₂_congr
  intro w hw
  rw [occursAsWord_nameLine htest (hnames w hw) hp]

end Line

theorem firstWord_nameLine (p : RunningProcess) :
    ((Chars.words (nameLine p))[0]?).getD [] = (pidText p.pid).toList := by
  unfold nameLine
  rw [Chars.words_append_cons (isPlain_pidText p.pid).1 (notBlank_pidText p.pid) (by decide)]
  rfl

/-- Both lookups find a process or neither does: one of the wanted name is excluded for its name
just where it is for its command line, and one with the wanted name in a longer one is excluded for
its name. -/
structure Query.TreatsAlike (q : Query) (p : RunningProcess) : Prop where
  named : p.name = q.keyword → (q.keyword ∈ q.excludes ↔ q.isExcluded p.commandLine = true)
  longer : p.name ≠ q.keyword → Text.contains p.name q.keyword = true → p.name ∈ q.excludes

/-- Whether a pipeline of `pgrep` prints the id of a process, and reading it keeps it. -/
def Query.isListed (q : Query) (p : RunningProcess) : Bool :=
  p.pid != q.ownPid && (Text.contains p.name q.keyword && !q.excludes.contains p.name)

theorem isListed_eq_matchesName_iff {q : Query} {p : RunningProcess} :
    q.isListed p = q.matchesName p ↔ (p.pid ≠ q.ownPid → q.TreatsAlike p) := by
  unfold Query.isListed Query.matchesName
  by_cases hpid : p.pid = q.ownPid
  · simp [hpid]
  have hother : (p.pid != q.ownPid) = true := bne_iff_ne.mpr hpid
  rw [hother]
  by_cases hname : p.name = q.keyword
  · have hcontains : Text.contains q.keyword q.keyword = true :=
      Chars.occursIn_iff.mpr ⟨[], [], by simp⟩
    have halike : q.TreatsAlike p ↔ (q.keyword ∈ q.excludes ↔ q.isExcluded p.commandLine = true) :=
      ⟨fun h => h.named hname, fun h => ⟨fun _ => h, fun hne => absurd hname hne⟩⟩
    rw [halike, hname, hcontains, beq_self_eq_true, ← List.contains_iff_mem, ← Bool.eq_iff_iff]
    simp [hpid]
  · have halike : q.TreatsAlike p ↔ (Text.contains p.name q.keyword = true → p.name ∈ q.excludes) :=
      ⟨fun h => h.longer hname, fun h => ⟨fun heq => absurd heq hname, fun _ => h⟩⟩
    rw [halike, beq_false_of_ne hname]
    simp [hpid]

section Names

variable {isWordChar : Char → Bool} {name : String} {c : Context} {markers : List String}
  (hwords : ∀ w ∈ name :: (c.excludes ++ markers), IsLetters w)

include hwords

theorem excludes_of_letters (ownPid : UInt32) :
    (Query.ofContext name c markers ownPid).excludes = c.excludes ++ markers :=
  cleanNames_of_plain fun w hw => (hwords w (List.mem_cons_of_mem name hw)).isPlain

/-- The pipeline prints the ids of the processes in whose names the wanted one stands, but for those
with an excluded name. -/
theorem nameOutput?_pgrepPipeline (htest : IsWordTest isWordChar) {table : List RunningProcess}
    (htable : ∀ p ∈ table, IsLetters p.name) :
    nameOutput? isWordChar (pgrepPipeline name c markers) table =
      some (String.ofList ((((table.filter fun p =>
        Text.contains p.name name && !(c.excludes ++ markers).contains p.name).map
          fun p => p.pid).map
          fun pid => (pidText pid).toList).flatMap fun w => w ++ [' '])) := by
  rw [List.forall_mem_cons] at hwords
  have hname : IsOperand name := hwords.1.isPlain.isOperand
  have hcommands := commands_pgrepPipeline hname.no_bar
    (isClean_pgrepStages fun w hw => (hwords.2 w hw).isPlain.isOperand)
  rw [hname.trim_option] at hcommands
  have hlines :
      ((table.filter fun p => Chars.occursIn name.toList p.name.toList).map nameLine).filter
      (fun l => (c.excludes ++ markers).all fun w => !Chars.occursAsWord isWordChar w.toList l) =
        (table.filter fun p => Text.contains p.name name &&
          !(c.excludes ++ markers).contains p.name).map nameLine := by
    rw [List.filter_map, List.filter_filter]
    congr 1
    apply List.filter_congr
    intro p hp
    rw [Function.comp_apply, all_not_occursAsWord_nameLine htest hwords.2 (htable p hp),
      Bool.and_comm]
    rfl
  unfold nameOutput? listing?
  rw [hcommands, List.head?_cons, Option.bind_some, Stage.after?_append, Option.map_some,
    Option.bind_some, output?_of_commands hcommands]
  simp only [List.all_nil, Bool.true_and, hlines, List.map_map, Function.comp_def, Nat.sub_self,
    firstWord_nameLine]

/-- What a pipeline of `pgrep` finds in a table. It is what the rules find if all processes but the
caller's own are treated alike, and, as no two processes have one id, only then. -/
theorem pidsOfColumn_pgrepPipeline (htest : IsWordTest isWordChar) {table : List RunningProcess}
    (htable : ∀ p ∈ table, IsLetters p.name) (ownPid : UInt32) :
    let q := Query.ofContext name c markers ownPid
    ∃ text, nameOutput? isWordChar (pgrepPipeline name c markers) table = some text ∧
      pidsOfColumn text ownPid = (table.filter q.isListed).map (fun p => pidText p.pid) ∧
      ((∀ p ∈ table, p.pid ≠ ownPid → q.TreatsAlike p) →
        pidsOfColumn text ownPid = q.byName table) ∧
      ((table.map fun p => p.pid).Nodup → pidsOfColumn text ownPid = q.byName table →
        ∀ p ∈ table, p.pid ≠ ownPid → q.TreatsAlike p) := by
  intro q
  refine ⟨_, nameOutput?_pgrepPipeline hwords htest htable, ?_⟩
  have hfound :
      (((table.filter fun p => Text.contains p.name name &&
        !(c.excludes ++ markers).contains p.name).map
      fun p => p.pid).filter fun pid => pid != ownPid).map pidText =
        (table.filter q.isListed).map fun p => pidText p.pid := by
    rw [List.filter_map, List.map_map, List.filter_filter, ← excludes_of_letters hwords ownPid]
    rfl
  rw [pidsOfColumn_flatMap, hfound]
  refine ⟨rfl, fun h => ?_, fun hnodup h => ?_⟩
  · unfold Query.byName
    rw [List.filter_congr fun p hp => isListed_eq_matchesName_iff.mpr (h p hp)]
  · intro p hp
    exact isListed_eq_matchesName_iff.mp
      ((filter_map_congr_iff (nodup_map_pidText hnodup)).mp h p hp)

end Names

/-- A process with a longer name is found by the pipeline and not by the rules, and one excluded for
its command line likewise. -/
theorem pidsOfColumn_pgrepPipeline_longer_name :
    let table : List RunningProcess :=
      [⟨10, "java", "java app"⟩, ⟨11, "javac", "javac app"⟩, ⟨12, "java", "java batch"⟩,
        ⟨13, "batchjava", "app"⟩]
    let c := (Context.fresh 0).withExcludes ["batch"]
    ∃ text,
      nameOutput? isAsciiWordChar (pgrepPipeline "java" c ["chaos"]) table = some text ∧
      pidsOfColumn text 99 = ["10", "11", "12", "13"] ∧
      (Query.ofContext "java" c ["chaos"] 99).byName table = ["10"] := by
  intro table c
  have htest : IsWordTest isAsciiWordChar := by
    refine ⟨by decide, fun c hc => ?_⟩
    rw [isAsciiWordChar, Char.isAlphanum, hc]
    rfl
  have hwords : ∀ w ∈ "java" :: (c.excludes ++ ["chaos"]), IsLetters w := by
    have hexcludes : c.excludes = ["batch"] := by decide
    rw [hexcludes]
    simp [IsLetters]
  have htable : ∀ p ∈ table, IsLetters p.name := by simp [table, IsLetters]
  obtain ⟨text, htext, hpids, -⟩ := pidsOfColumn_pgrepPipeline hwords htest htable 99
  refine ⟨text, htext, ?_, by decide⟩
  rw [hpids]
  decide

end HostReach.Lookup
