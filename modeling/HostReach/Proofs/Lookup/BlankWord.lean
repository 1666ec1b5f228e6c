import HostReach.Proofs.Context.Excludes
import HostReach.Proofs.Lookup.Stage

/-!
Words of nothing but white space. Among the excludes and the markers they are as good as absent. As
the word of a filter only the empty one is: every other word is asked for, in the command line of a
process and by a stage of the pipeline, be it blank or not.
-/
namespace HostReach.Lookup

theorem map_filter_and_eq_iff {α β : Type} {f : α → β} {p q : α → Bool} {l : List α} :
    ((l.filter fun a => p a && q a).map f = (l.filter p).map f) ↔
    ∀ a ∈ l, p a = true → q a = true := by
  have hnarrowed : (l.filter fun a => p a && q a) = (l.filter p).filter q := by
    rw [List.filter_filter]
    simp only [Bool.and_comm]
  rw [hnarrowed]
  constructor
  · intro h a ha hp
    have hlength := congrArg List.length h
    rw [List.length_map, List.length_map, List.length_filter_eq_length_iff] at hlength
    exact hlength a (List.mem_filter.mpr ⟨ha, hp⟩)
  · intro h
    rw [List.filter_eq_self.mpr fun a ha => h a (List.mem_filter.mp ha).1 (List.mem_filter.mp ha).2]

inductive FilterKind where
  | process
  | command

namespace FilterKind

def set : FilterKind → Context → String → Context
  | .process, c, w => c.withProcessFilter w
  | .command, c, w => c.withProcessCommand w

def unset : FilterKind → Context → Context
  | .process, c => { c with rawProcessFilter := none }
  | .command, c => { c with rawProcessCommand := none }

variable (kind : FilterKind) (c : Context) (w : String) {keyword : String} {markers : List String}
    {ownPid : UInt32}

theorem all_nonEmpty (t : String) :
    (Context.nonEmpty (some w)).toList.all (fun v => Text.contains t v) = Text.contains t w := by
  unfold Context.nonEmpty
  by_cases hw : w = ""
  · have hempty : Text.contains t "" = true := Chars.occursIn_iff.mpr ⟨[], t.toList, rfl⟩
    rw [hw, hempty]
    rfl
  · simp [Option.filter, hw]

theorem matchesCommandLine_set (p : RunningProcess) :
    (Query.ofContext keyword (kind.set c w) markers ownPid).matchesCommandLine p =
      ((Query.ofContext keyword (kind.unset c) markers ownPid).matchesCommandLine p &&
        Text.contains p.commandLine w) := by
  have hunset (o : Option String) : (Context.nonEmpty none).toList ++ o.toList = o.toList := rfl
  unfold Query.matchesCommandLine Query.isExcluded Query.required Query.ofContext
    Context.processFilter
    Context.processCommand
  rw [← all_nonEmpty]
  cases kind with
  | process =>
    simp only [set, unset, Context.withProcessFilter, List.cons_append, hunset, List.all_cons,
      List.all_append]
    ac_rfl
  | command =>
    have hlast (o : Option String) : o.toList ++ (Context.nonEmpty none).toList = o.toList :=
      List.append_nil _
    simp only [set, unset, Context.withProcessCommand, List.cons_append, hlast, List.all_cons,
      List.all_append]
    ac_rfl

/-- What is found with a word of a filter is what is found without it among the processes that have
the word. -/
theorem byCommandLine_set (table : List RunningProcess) :
    (Query.ofContext keyword (kind.set c w) markers ownPid).byCommandLine table =
      (Query.ofContext keyword (kind.unset c) markers ownPid).byCommandLine
        (table.filter fun p => Text.contains p.commandLine w) := by
  unfold Query.byCommandLine
  rw [List.filter_filter]
  congr 1
  apply List.filter_congr
  intro p _
  rw [matchesCommandLine_set]

theorem byCommandLine_set_eq_iff (table : List RunningProcess) :
    (Query.ofContext keyword (kind.set c w) markers ownPid).byCommandLine table =
        (Query.ofContext keyword (kind.unset c) markers ownPid).byCommandLine table ↔
      ∀ p ∈ table, (Query.ofContext keyword (kind.unset c) markers ownPid).matchesCommandLine p =
        true →
        Text.contains p.commandLine w = true := by
  have hmatches : (Query.ofContext keyword (kind.set c w) markers ownPid).matchesCommandLine =
      fun p => (Query.ofContext keyword (kind.unset c) markers ownPid).matchesCommandLine p &&
        Text.contains p.commandLine w :=
    funext (kind.matchesCommandLine_set c w)
  unfold Query.byCommandLine
  rw [hmatches]
  exact map_filter_and_eq_iff

theorem byName_set (table : List RunningProcess) :
    (Query.ofContext keyword (kind.set c w) markers ownPid).byName table =
      (Query.ofContext keyword (kind.unset c) markers ownPid).byName table := by
  cases kind <;> rfl

theorem pgrepPipeline_set (name : String) :
    pgrepPipeline name (kind.set c w) markers = pgrepPipeline name (kind.unset c) markers := by
  cases kind <;> rfl

theorem length_psPipeline_lt (psArgs : String) (hw : w ≠ "") :
    (psPipeline psArgs keyword (kind.unset c) markers).toList.length <
      (psPipeline psArgs keyword (kind.set c w) markers).toList.length := by
  have hset : (Context.nonEmpty (some w)).toList = [w] := by
    simp [Context.nonEmpty, Option.filter, hw]
  have hunset : (Context.nonEmpty none).toList = [] := rfl
  rw [toList_psPipeline, toList_psPipeline]
  unfold Context.processFilter Context.processCommand
  cases kind with
  | process =>
    simp only [set, unset, Context.withProcessFilter, hset, hunset, barred,
      List.map_cons, List.map_nil, List.flatMap_cons, List.flatMap_nil, List.length_append,
      List.length_cons, List.length_nil]
    omega
  | command =>
    simp only [set, unset, Context.withProcessCommand, hset, hunset, barred,
      List.map_cons, List.map_nil, List.flatMap_cons, List.flatMap_nil, List.length_append,
      List.length_cons, List.length_nil]
    omega

theorem psPipeline_set_eq_iff (psArgs : String) :
    psPipeline psArgs keyword (kind.set c w) markers =
      psPipeline psArgs keyword (kind.unset c) markers ↔ w = "" := by
  constructor
  · intro h
    apply Decidable.byContradiction
    intro hw
    exact absurd (congrArg (fun t => t.toList.length) h)
      (Nat.ne_of_gt (length_psPipeline_lt kind c w psArgs hw))
  · rintro rfl
    cases kind <;> rfl

end FilterKind

/-- A word of a filter has no say by name. By command line, and in the text of the pipeline that
looks there, it is as good as unset only if it is empty: any other word has to stand in the command
line, one of white space too. Blank names among the excludes and the markers change nothing. -/
theorem blank_words (kind : FilterKind) (c : Context) (w : String) (markers : List String) :
    (∀ keyword ownPid table,
      let withWord := Query.ofContext keyword (kind.set c w) markers ownPid
      let without := Query.ofContext keyword (kind.unset c) markers ownPid
      withWord.byName table = without.byName table ∧
        withWord.byCommandLine table =
          without.byCommandLine (table.filter fun p => Text.contains p.commandLine w) ∧
        (withWord.byCommandLine table = without.byCommandLine table ↔
          ∀ p ∈ table, without.matchesCommandLine p = true →
          Text.contains p.commandLine w = true)) ∧
    (∀ name, pgrepPipeline name (kind.set c w) markers =
      pgrepPipeline name (kind.unset c) markers) ∧
    (∀ psArgs keyword,
      psPipeline psArgs keyword (kind.set c w) markers =
        psPipeline psArgs keyword (kind.unset c) markers ↔ w = "") ∧
    (∀ names, c.withExcludes (names.filter fun n => !Text.isBlank n) = c.withExcludes names) ∧
    ∀ keyword ownPid, Query.ofContext keyword c (markers.filter fun m => !Text.isBlank m) ownPid =
      Query.ofContext keyword c markers ownPid := by
  refine ⟨fun keyword ownPid table => ?_, kind.pgrepPipeline_set c w,
    fun psArgs _ => kind.psPipeline_set_eq_iff c w psArgs, fun names => ?_,
    fun keyword ownPid => ?_⟩
  · exact ⟨kind.byName_set c w table, kind.byCommandLine_set c w table,
      kind.byCommandLine_set_eq_iff c w table⟩
  · unfold Context.withExcludes
    rw [Context.cleanNames_filter_notBlank]
  · unfold Query.ofContext
    rw [Context.cleanNames_append, Context.cleanNames_filter_notBlank, ← Context.cleanNames_append]

/-- A filter whose word is a tab hides a process whose command line has none. -/
theorem blank_words_tab :
    let c := Context.fresh 0
    let table : List RunningProcess := [⟨10, "java", "java -jar app"⟩]
    (Query.ofContext "java" c [] 1).byCommandLine table = ["10"] ∧
      (Query.ofContext "java" (c.withProcessFilter "\t") [] 1).byCommandLine table = [] ∧
      psPipeline "-ef" "java" (c.withProcessFilter "\t") [] ≠ psPipeline "-ef" "java" c [] := by
  intro c table
  obtain ⟨hfound, -, htext, -⟩ := blank_words .process c "\t" []
  have hword : "\t" ≠ "" := by decide
  refine ⟨by decide, ?_, mt (htext "-ef" "java").mp hword⟩
  exact (hfound "java" 1 table).2.1.trans (by decide)

end HostReach.Lookup
