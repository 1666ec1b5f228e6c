import HostReach.Lookup.Query
import HostReach.Proofs.Context.Excludes
import HostReach.Proofs.Lookup.Row
import Mathlib.Data.List.Nodup

/-!
What the rules of a context allow to be found in a process table. Both lookups find permitted
processes only; the secondary filter is a rule of the lookup by command line, while the lookup by
name goes by the name alone.
-/
namespace HostReach

namespace Context

theorem mem_toList_nonEmpty {word : Option String} {w : String} :
    w ∈ (nonEmpty word).toList ↔ w ∈ word ∧ w ≠ "" := by
  unfold nonEmpty
  rw [Option.mem_toList, Option.filter_eq_some_iff, Option.mem_def]
  simp

theorem nonEmpty_eq_none {word : Option String} (h : ∀ v ∈ word, v = "") :
    nonEmpty word = none := by
  rw [← Option.toList_eq_nil_iff, List.eq_nil_iff_forall_not_mem]
  intro w hw
  obtain ⟨hmem, hne⟩ := mem_toList_nonEmpty.mp hw
  exact hne (h w hmem)

end Context

namespace Lookup

/-- What the rules ask of a process however it is looked up: it is not the caller itself, and no
excluded name and no marker stands in its command line. -/
structure IsPermitted (c : Context) (markers : List String) (ownPid : UInt32)
    (p : RunningProcess) : Prop where
  pid_ne : p.pid ≠ ownPid
  lacks_excludes : ∀ n ∈ c.excludes, Text.contains p.commandLine n = false
  lacks_markers : ∀ m ∈ markers, Text.isBlank m = false →
    Text.contains p.commandLine (Text.trim m) = false

/-- A process has in its command line what the secondary filter asks for, if there is one. -/
def PassesFilter (c : Context) (p : RunningProcess) : Prop :=
  ∀ w ∈ c.rawProcessFilter, w ≠ "" → Text.contains p.commandLine w = true

/-- No name of a list stands in a command line. Names count without the white space at their ends,
and blank ones do not count. -/
def LacksNames (names : List String) (line : String) : Prop :=
  ∀ n ∈ names, Text.isBlank n = false → Text.contains line (Text.trim n) = false

theorem isExcluded_eq_false_iff_lacksNames {keyword : String} {c : Context} {markers : List String}
    {ownPid : UInt32} {line : String} :
    (Query.ofContext keyword c markers ownPid).isExcluded line = false ↔
    LacksNames (c.excludes ++ markers) line := by
  unfold Query.isExcluded Query.ofContext LacksNames
  rw [List.any_eq_false]
  simp only [Bool.not_eq_true, Context.mem_cleanNames]
  constructor
  · intro h n hn hblank
    exact h _ ⟨n, hn, hblank, rfl⟩
  · rintro h _ ⟨n, hn, hblank, rfl⟩
    exact h n hn hblank

theorem all_required_iff (keyword : String) (c : Context) (markers : List String) (ownPid : UInt32)
    (line : String) :
    (Query.ofContext keyword c markers ownPid).required.all (fun w => Text.contains line w) = true ↔
      Text.contains line keyword = true ∧
        (∀ w ∈ c.rawProcessFilter, w ≠ "" → Text.contains line w = true) ∧
        ∀ w ∈ c.rawProcessCommand, w ≠ "" → Text.contains line w = true := by
  unfold Query.required Query.ofContext Context.processFilter Context.processCommand
  simp only [List.all_cons, List.all_append, Bool.and_eq_true, List.all_eq_true,
    Context.mem_toList_nonEmpty, and_imp, and_assoc]

section Clean

variable {c : Context} (hclean : ∀ n ∈ c.excludes, Context.IsCleanName n) {keyword : String}
    {markers : List String}
  {ownPid : UInt32} {p : RunningProcess}

include hclean

theorem isExcluded_eq_false_iff {line : String} :
    (Query.ofContext keyword c markers ownPid).isExcluded line = false ↔
      (∀ n ∈ c.excludes, Text.contains line n = false) ∧
        ∀ m ∈ markers, Text.isBlank m = false → Text.contains line (Text.trim m) = false := by
  rw [isExcluded_eq_false_iff_lacksNames, LacksNames, List.forall_mem_append]
  apply and_congr_left'
  apply forall₂_congr
  intro n hn
  rw [(hclean n hn).isBlank_eq_false, (hclean n hn).trim_eq]
  exact forall_prop_of_true rfl

theorem isPermitted_iff :
    IsPermitted c markers ownPid p ↔
      p.pid ≠ ownPid ∧
      (Query.ofContext keyword c markers ownPid).isExcluded p.commandLine = false := by
  rw [isExcluded_eq_false_iff hclean]
  constructor
  · rintro ⟨hpid, hexcludes, hmarkers⟩
    exact ⟨hpid, hexcludes, hmarkers⟩
  · rintro ⟨hpid, hexcludes, hmarkers⟩
    exact ⟨hpid, hexcludes, hmarkers⟩

theorem matchesCommandLine_iff :
    (Query.ofContext keyword c markers ownPid).matchesCommandLine p = true ↔
      IsPermitted c markers ownPid p ∧ PassesFilter c p ∧
      Text.contains p.commandLine keyword = true ∧
        ∀ w ∈ c.rawProcessCommand, w ≠ "" → Text.contains p.commandLine w = true := by
  have hrequired := (all_required_iff keyword c markers ownPid p.commandLine).trans and_left_comm
  unfold Query.matchesCommandLine
  rw [Bool.and_eq_true, Bool.and_eq_true, hrequired, Bool.not_eq_true', bne_iff_ne,
    isPermitted_iff hclean, and_assoc, and_comm, and_comm (b := p.pid ≠ _)]
  rfl

theorem matchesName_iff :
    (Query.ofContext keyword c markers ownPid).matchesName p = true ↔
      IsPermitted c markers ownPid p ∧ p.name = keyword := by
  unfold Query.matchesName
  rw [Bool.and_eq_true, Bool.and_eq_true, Bool.not_eq_true', beq_iff_eq, bne_iff_ne,
    isPermitted_iff hclean, and_assoc, and_comm]
  rfl

end Clean

theorem mem_map_filter_pidText {f : RunningProcess → Bool} {table : List RunningProcess}
    {pid : String} :
    (pid ∈ (table.filter f).map fun p => pidText p.pid) ↔
    ∃ p ∈ table, pidText p.pid = pid ∧ f p = true := by
  simp only [List.mem_map, List.mem_filter, and_assoc]
  constructor
  · rintro ⟨p, hp, hf, hpid⟩
    exact ⟨p, hp, hpid, hf⟩
  · rintro ⟨p, hp, hpid, hf⟩
    exact ⟨p, hp, hf, hpid⟩

/-- The ids found by command line are those of the permitted processes that pass the filter and have
the keyword and the command in their command lines, and the ids found by name those of the permitted
processes of that name. As no two processes have one id, what is found by name passes the filter
just where every permitted process of that name does. -/
theorem mem_found_iff_permitted {requestId : Nat} {steps : List Context.TimedStep} {c : Context}
    (hc : (Context.fresh requestId).derive? steps = some c) (keyword : String)
    (markers : List String) (ownPid : UInt32) (table : List RunningProcess) :
    let q := Query.ofContext keyword c markers ownPid
    (∀ pid, pid ∈ q.byCommandLine table ↔
      ∃ p ∈ table, pidText p.pid = pid ∧ IsPermitted c markers ownPid p ∧ PassesFilter c p ∧
        Text.contains p.commandLine keyword = true ∧
        ∀ w ∈ c.rawProcessCommand, w ≠ "" → Text.contains p.commandLine w = true) ∧
    (∀ pid, pid ∈ q.byName table ↔
      ∃ p ∈ table, pidText p.pid = pid ∧ IsPermitted c markers ownPid p ∧ p.name = keyword) ∧
    ((table.map RunningProcess.pid).Nodup →
      ((∀ pid ∈ q.byName table, ∃ p ∈ table, pidText p.pid = pid ∧ PassesFilter c p) ↔
        ∀ p ∈ table, IsPermitted c markers ownPid p → p.name = keyword → PassesFilter c p)) := by
  intro q
  have hclean := Context.isCleanName_of_mem_excludes hc
  have hname (pid : String) : pid ∈ q.byName table ↔
      ∃ p ∈ table, pidText p.pid = pid ∧ IsPermitted c markers ownPid p ∧ p.name = keyword := by
    unfold Query.byName
    simp only [mem_map_filter_pidText, q, matchesName_iff hclean]
  refine ⟨fun pid => ?_, hname, fun hnodup => ?_⟩
  · unfold Query.byCommandLine
    simp only [mem_map_filter_pidText, q, matchesCommandLine_iff hclean]
  constructor
  · intro h p hp hpermitted hpname
    obtain ⟨r, hr, hpid, hfilter⟩ := h _ ((hname _).mpr ⟨p, hp, rfl, hpermitted, hpname⟩)
    rw [← List.inj_on_of_nodup_map hnodup hr hp (pidText_inj.mp hpid)]
    exact hfilter
  · intro h pid hpid
    obtain ⟨p, hp, hpid, hpermitted, hpname⟩ := (hname pid).mp hpid
    exact ⟨p, hp, hpid, h p hp hpermitted hpname⟩

/-- By name a process is found that lacks what the secondary filter asks for. -/
theorem mem_found_iff_permitted_without_filter :
    let steps : List Context.TimedStep :=
  [⟨.start, .processFilter "app"⟩, ⟨.start, .excludeList " batch,,"⟩]
    let c := ((Context.fresh 0).withProcessFilter "app").withExcludeList " batch,,"
    let q := Query.ofContext "java" c [" chaos", ""] 99
    let table : List RunningProcess :=
      [⟨10, "java", "java app"⟩, ⟨11, "java", "java shop"⟩, ⟨12, "java", "java app batch"⟩,
        ⟨13, "java", "java app chaos"⟩, ⟨14, "sh", "sh java app"⟩, ⟨99, "java", "java app"⟩]
    (Context.fresh 0).derive? steps = some c ∧ q.byCommandLine table = ["10", "14"] ∧
    q.byName table = ["10", "11"] ∧
      ¬∀ pid ∈ q.byName table, ∃ p ∈ table, pidText p.pid = pid ∧ PassesFilter c p := by
  intro steps c q table
  have hc : (Context.fresh 0).derive? steps = some c := rfl
  refine ⟨hc, by decide, by decide, fun h => ?_⟩
  obtain ⟨-, hname, hfilter⟩ := mem_found_iff_permitted hc "java" [" chaos", ""] 99 table
  have hfound : "11" ∈ q.byName table := by decide
  obtain ⟨p, hp, hpid, hpermitted, hpname⟩ := (hname "11").mp hfound
  have hpasses := (hfilter (by decide)).mp h p hp hpermitted hpname "app" rfl (by decide)
  have hcontains : ∀ r ∈ table, pidText r.pid = "11" →
      Text.contains r.commandLine "app" = false := by decide
  rw [hcontains p hp hpid] at hpasses
  cases hpasses

end Lookup

end HostReach
