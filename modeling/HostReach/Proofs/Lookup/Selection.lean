import HostReach.Proofs.Lookup.Rules
import Mathlib.Data.List.Basic

/-!
Direct lookups select: process by process, in the order of the table. Rules that ask for more and
exclude more select among what is selected without them, and how excluded names are listed does not
matter.
-/
namespace HostReach.Lookup

/-- What is found in a table are the ids of its wanted processes, of all of them and in their
order. -/
structure Selects (found : List RunningProcess → List String)
    (wanted : RunningProcess → Prop) : Prop where
  append : ∀ first rest, found (first ++ rest) = found first ++ found rest
  chosen : ∀ table, ∃ chosen : List RunningProcess, chosen.Sublist table ∧
    (∀ p ∈ table, p ∈ chosen ↔ wanted p) ∧ found table = chosen.map fun p => pidText p.pid

theorem selects_filter {f : RunningProcess → Bool} {wanted : RunningProcess → Prop}
    (h : ∀ p, f p = true ↔ wanted p) :
    Selects (fun table => (table.filter f).map fun p => pidText p.pid) wanted where
  append first rest := by rw [List.filter_append, List.map_append]
  chosen table := by
    refine ⟨table.filter f, List.filter_sublist, fun p hp => ?_, rfl⟩
    rw [List.mem_filter, h]
    exact and_iff_right hp

namespace Query

/-- Rules that want no process besides those that others want: every text that the others ask for
stands in one that is asked for here, and every name that they exclude is excluded here. -/
structure Narrows (narrow wide : Query) : Prop where
  required : ∀ w ∈ wide.required, ∃ v ∈ narrow.required, Text.contains v w = true
  excludes : wide.excludes ⊆ narrow.excludes
  ownPid : narrow.ownPid = wide.ownPid

namespace Narrows

variable {narrow wide : Query} (h : narrow.Narrows wide)

include h

theorem isExcluded {line : String} (hline : narrow.isExcluded line = false) :
    wide.isExcluded line = false := by
  unfold Query.isExcluded at hline ⊢
  rw [List.any_eq_false] at hline ⊢
  intro n hn
  exact hline n (h.excludes hn)

theorem matchesCommandLine {p : RunningProcess} (hp : narrow.matchesCommandLine p = true) :
    wide.matchesCommandLine p = true := by
  unfold Query.matchesCommandLine at hp ⊢
  simp only [Bool.and_eq_true, Bool.not_eq_true', List.all_eq_true] at hp ⊢
  obtain ⟨⟨hrequired, hexcluded⟩, hpid⟩ := hp
  refine ⟨⟨fun w hw => ?_, h.isExcluded hexcluded⟩, by rwa [← h.ownPid]⟩
  obtain ⟨v, hv, hcontains⟩ := h.required w hw
  exact Chars.occursIn_trans hcontains (hrequired v hv)

theorem matchesName (hkeyword : narrow.keyword = wide.keyword) {p : RunningProcess}
    (hp : narrow.matchesName p = true) : wide.matchesName p = true := by
  unfold Query.matchesName at hp ⊢
  simp only [Bool.and_eq_true, Bool.not_eq_true'] at hp ⊢
  obtain ⟨⟨hname, hpid⟩, hexcluded⟩ := hp
  exact ⟨⟨by rwa [← hkeyword], by rwa [← h.ownPid]⟩, h.isExcluded hexcluded⟩

theorem byCommandLine_sublist (table : List RunningProcess) :
    (narrow.byCommandLine table).Sublist (wide.byCommandLine table) :=
  (List.monotone_filter_right table fun _ => h.matchesCommandLine).map _

theorem byName_sublist (hkeyword : narrow.keyword = wide.keyword) (table : List RunningProcess) :
    (narrow.byName table).Sublist (wide.byName table) :=
  (List.monotone_filter_right table fun _ => h.matchesName hkeyword).map _

end Narrows

theorem Narrows.of_subset {narrow wide : Query} (hrequired : wide.required ⊆ narrow.required)
    (hexcludes : wide.excludes ⊆ narrow.excludes) (hpid : narrow.ownPid = wide.ownPid) :
    narrow.Narrows wide :=
  ⟨fun w hw => ⟨w, hrequired hw, Chars.occursIn_refl w.toList⟩, hexcludes, hpid⟩

end Query

variable {keyword : String} {c : Context} {markers : List String} {ownPid : UInt32}

theorem narrows_of_excludes_subset {names more : List String}
    (h : c.excludes ++ markers ⊆ names ++ more) :
    (Query.ofContext keyword { c with excludes := names } more ownPid).Narrows
      (Query.ofContext keyword c markers ownPid) :=
  .of_subset (List.Subset.refl _) (Context.cleanNames_subset h) rfl

theorem narrows_of_keyword {longer : String} (h : Text.contains longer keyword = true) :
    (Query.ofContext longer c markers ownPid).Narrows
      (Query.ofContext keyword c markers ownPid) where
  required w hw := by
    unfold Query.required Query.ofContext at hw ⊢
    rcases List.mem_cons.mp hw with rfl | hw
    · exact ⟨longer, List.mem_cons_self, h⟩
    · exact ⟨w, List.mem_cons_of_mem _ hw, Chars.occursIn_refl w.toList⟩
  excludes := List.Subset.refl _
  ownPid := rfl

theorem narrows_of_processFilter (h : ∀ v ∈ c.rawProcessFilter, v = "") (w : String) :
    (Query.ofContext keyword (c.withProcessFilter w) markers ownPid).Narrows
      (Query.ofContext keyword c markers ownPid) := by
  refine .of_subset ?_ (List.Subset.refl _) rfl
  unfold Query.required Query.ofContext
  rw [show c.processFilter = none from Context.nonEmpty_eq_none h]
  intro v hv
  simp only [Option.toList_none, List.cons_append, List.nil_append, List.mem_cons,
    List.mem_append] at hv ⊢
  exact hv.imp_right .inr

theorem narrows_of_processCommand (h : ∀ v ∈ c.rawProcessCommand, v = "") (w : String) :
    (Query.ofContext keyword (c.withProcessCommand w) markers ownPid).Narrows
      (Query.ofContext keyword c markers ownPid) := by
  refine .of_subset ?_ (List.Subset.refl _) rfl
  unfold Query.required Query.ofContext
  rw [show c.processCommand = none from Context.nonEmpty_eq_none h]
  intro v hv
  simp only [Option.toList_none, List.append_nil, List.cons_append, List.mem_cons,
    List.mem_append] at hv ⊢
  exact hv.imp_right .inl

variable (keyword c markers ownPid)

theorem selects_byCommandLine :
    Selects (Query.ofContext keyword c markers ownPid).byCommandLine fun p =>
      Text.contains p.commandLine keyword = true ∧
        (∀ w ∈ c.rawProcessFilter, w ≠ "" → Text.contains p.commandLine w = true) ∧
        (∀ w ∈ c.rawProcessCommand, w ≠ "" → Text.contains p.commandLine w = true) ∧
        LacksNames (c.excludes ++ markers) p.commandLine ∧ p.pid ≠ ownPid := by
  apply selects_filter
  intro p
  unfold Query.matchesCommandLine
  rw [Bool.and_eq_true, Bool.and_eq_true, all_required_iff, Bool.not_eq_true',
    isExcluded_eq_false_iff_lacksNames, bne_iff_ne]
  simp only [and_assoc]
  rfl

theorem selects_byName :
    Selects (Query.ofContext keyword c markers ownPid).byName fun p =>
      p.name = keyword ∧ LacksNames (c.excludes ++ markers) p.commandLine ∧ p.pid ≠ ownPid := by
  apply selects_filter
  intro p
  unfold Query.matchesName
  rw [Bool.and_eq_true, Bool.and_eq_true, beq_iff_eq, bne_iff_ne, Bool.not_eq_true',
    isExcluded_eq_false_iff_lacksNames, and_assoc, and_comm (a := p.pid ≠ _)]
  rfl

/-- Each lookup selects the processes that meet its own rules. More names to exclude leave a part of
what is found, and so do, by command line, a keyword that contains the one before and a filter where
none was set. The order of excluded names and of markers does not matter, nor how often they are
listed. -/
theorem selects_and_narrows (keyword : String) (c : Context) (markers : List String)
    (ownPid : UInt32) :
    let q := Query.ofContext keyword c markers ownPid
    let isAllowed := fun p : RunningProcess => LacksNames (c.excludes ++ markers) p.commandLine ∧
      p.pid ≠ ownPid
    Selects q.byCommandLine (fun p =>
      Text.contains p.commandLine keyword = true ∧
        (∀ w ∈ c.rawProcessFilter, w ≠ "" → Text.contains p.commandLine w = true) ∧
        (∀ w ∈ c.rawProcessCommand, w ≠ "" → Text.contains p.commandLine w = true) ∧ isAllowed p) ∧
    Selects q.byName (fun p => p.name = keyword ∧ isAllowed p) ∧
    ∀ table,
      (∀ names more,
        let narrow := Query.ofContext keyword (c.withExcludes names) (markers ++ more) ownPid
        (narrow.byCommandLine table).Sublist (q.byCommandLine table) ∧
          (narrow.byName table).Sublist (q.byName table)) ∧
      (∀ longer, Text.contains longer keyword = true →
        ((Query.ofContext longer c markers ownPid).byCommandLine table).Sublist
          (q.byCommandLine table)) ∧
      ((∀ v ∈ c.rawProcessFilter, v = "") → ∀ w,
        ((Query.ofContext keyword (c.withProcessFilter w) markers
          ownPid).byCommandLine table).Sublist (q.byCommandLine table)) ∧
      ((∀ v ∈ c.rawProcessCommand, v = "") → ∀ w,
        ((Query.ofContext keyword (c.withProcessCommand w) markers
          ownPid).byCommandLine table).Sublist (q.byCommandLine table)) ∧
      ∀ names more, (∀ n, n ∈ names ↔ n ∈ c.excludes) → (∀ m, m ∈ more ↔ m ∈ markers) →
        let same := Query.ofContext keyword { c with excludes := names } more ownPid
        same.byCommandLine table = q.byCommandLine table ∧ same.byName table = q.byName table := by
  intro q isAllowed
  refine ⟨selects_byCommandLine keyword c markers ownPid,
    selects_byName keyword c markers ownPid, fun table =>
    ⟨fun names more => ?added, fun longer h => (narrows_of_keyword h).byCommandLine_sublist table,
      fun h w => (narrows_of_processFilter h w).byCommandLine_sublist table,
      fun h w => (narrows_of_processCommand h w).byCommandLine_sublist table,
      fun names more hnames hmore => ?relisted⟩⟩
  case added =>
    have hsubset : c.excludes ++ markers ⊆ (c.withExcludes names).excludes ++
        (markers ++ more) := by
      unfold Context.withExcludes
      intro n hn
      simp only [List.mem_append] at hn ⊢
      exact hn.imp .inl .inl
    have hnarrows :
        (Query.ofContext keyword (c.withExcludes names) (markers ++ more) ownPid).Narrows q :=
      narrows_of_excludes_subset hsubset
    exact ⟨hnarrows.byCommandLine_sublist table, hnarrows.byName_sublist rfl table⟩
  case relisted =>
    have hmem (n : String) : n ∈ names ++ more ↔ n ∈ c.excludes ++ markers := by
      rw [List.mem_append, List.mem_append, hnames, hmore]
    have hnarrow : (Query.ofContext keyword { c with excludes := names } more ownPid).Narrows q :=
      narrows_of_excludes_subset fun n => (hmem n).mpr
    have hwide : q.Narrows (Query.ofContext keyword { c with excludes := names } more ownPid) :=
      narrows_of_excludes_subset (c := { c with excludes := names }) fun n => (hmem n).mp
    exact ⟨(hnarrow.byCommandLine_sublist table).antisymm (hwide.byCommandLine_sublist table),
      (hnarrow.byName_sublist rfl table).antisymm (hwide.byName_sublist rfl table)⟩

/-- A longer keyword, a filter, a command, more names to exclude, and the same names listed twice.
Where a filter and a command are set, they are asked for. -/
theorem selects_and_narrows_worked_table :
    let c := ((Context.fresh 0).withExcludes [" batch"]).withProcessFilter ""
    let both := (c.withProcessFilter "-jar").withProcessCommand "app"
    let found := fun keyword c markers table =>
      (Query.ofContext keyword c markers 99).byCommandLine table
    let table : List RunningProcess :=
      [⟨10, "java", "java -jar app"⟩, ⟨11, "java", "java -jar batch"⟩, ⟨12, "sh", "sh -c java"⟩,
        ⟨13, "chaos", "chaos java"⟩, ⟨10, "java", "java -jar app"⟩, ⟨14, "java", "java -jar shop"⟩,
        ⟨15, "app", "java app"⟩, ⟨99, "java", "java"⟩]
    (Text.contains "java -jar" "java" = true ∧ (∀ v ∈ c.rawProcessFilter, v = "") ∧
      (∀ v ∈ c.rawProcessCommand, v = "") ∧ (∀ n, n ∈ ["batch", "batch"] ↔ n ∈ c.excludes) ∧
      ∀ m, m ∈ ["chaos", "chaos"] ↔ m ∈ ["chaos"]) ∧
    Selects (fun table => found "java" both ["chaos"] table) (fun p =>
      Text.contains p.commandLine "java" = true ∧
        (∀ w ∈ some "-jar", w ≠ "" → Text.contains p.commandLine w = true) ∧
        (∀ w ∈ some "app", w ≠ "" → Text.contains p.commandLine w = true) ∧
        LacksNames (["batch"] ++ ["chaos"]) p.commandLine ∧ p.pid ≠ 99) ∧
    found "java" both ["chaos"] table = ["10", "10"] ∧
    let wide := found "java" c ["chaos"] table
    let longer := found "java -jar" c ["chaos"] table
    let filtered := found "java" (c.withProcessFilter "app") ["chaos"] table
    let commanded := found "java" (c.withProcessCommand "sh -c") ["chaos"] table
    let excluding := found "java" (c.withExcludes ["-c"]) ["chaos", "-jar"] table
    wide = ["10", "12", "10", "14", "15"] ∧
    longer.Sublist wide ∧ longer = ["10", "10", "14"] ∧
    filtered.Sublist wide ∧ filtered = ["10", "10", "15"] ∧
    commanded.Sublist wide ∧ commanded = ["12"] ∧
    excluding.Sublist wide ∧ excluding = ["15"] ∧
    found "java" { c with excludes := ["batch", "batch"] } ["chaos", "chaos"] table = wide := by
  intro c both found table
  have hunset : ∀ v ∈ c.rawProcessFilter, v = "" := by decide
  have hexcludes : c.excludes = ["batch"] := by decide
  have hnames (n : String) : n ∈ ["batch", "batch"] ↔ n ∈ c.excludes := by simp [hexcludes]
  have hmarkers (m : String) : m ∈ ["chaos", "chaos"] ↔ m ∈ ["chaos"] := by simp
  have hkeyword : Text.contains "java -jar" "java" = true := by decide
  obtain ⟨hboth, -⟩ := selects_and_narrows "java" both ["chaos"] 99
  obtain ⟨-, -, h⟩ := selects_and_narrows "java" c ["chaos"] 99
  obtain ⟨hadded, hlonger, hfilter, hcommand, hrelisted⟩ := h table
  exact ⟨⟨hkeyword, hunset, by decide, hnames, hmarkers⟩, hboth, by decide, by decide,
    hlonger "java -jar" hkeyword, by decide, hfilter hunset "app", by decide,
    hcommand (by decide) "sh -c", by decide, (hadded ["-c"] ["-jar"]).1, by decide,
    (hrelisted _ _ hnames hmarkers).1⟩

end HostReach.Lookup
