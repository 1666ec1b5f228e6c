import HostReach.Proofs.Lookup.Row
import Mathlib.Data.List.Nodup

/-!
A pipeline of `ps` and the rules of a query find the same processes by command line, but for one
thing: the rules exclude a process for a name anywhere in its command line, the pipeline only for a
whole word.
-/
namespace HostReach.Lookup

def ruleWords (keyword : String) (c : Context) (markers : List String) : List String :=
  keyword :: (c.processFilter.toList ++ c.processCommand.toList) ++ (c.excludes ++ markers)

/-- Whether a process is wanted unless it is excluded. -/
def Query.isCandidate (q : Query) (p : RunningProcess) : Bool :=
  q.required.all (fun w => Text.contains p.commandLine w) && p.pid != q.ownPid

/-- Whether the stages of a pipeline exclude a row: an excluded name is a whole word of its command
line, or `grep` is one of its user. -/
def Row.isDropped (isWordChar : Char → Bool) (q : Query) (r : Row) : Bool :=
  q.excludes.any (fun w => Chars.occursAsWord isWordChar w.toList r.commandLine.toList) ||
    Chars.occursAsWord isWordChar "grep".toList r.user.toList

section Plain

variable {isWordChar : Char → Bool} {keyword : String} {c : Context} {markers : List String}
  (hplain : ∀ w ∈ ruleWords keyword c markers, IsPlain w)

include hplain

theorem keptWords_of_plain (ownPid : UInt32) :
    keptWords keyword c = (Query.ofContext keyword c markers ownPid).required := by
  have hkeyword := hplain keyword (by simp [ruleWords])
  unfold keptWords
  rw [hkeyword.escapeDash]
  rfl

theorem excludes_of_plain (ownPid : UInt32) :
    (Query.ofContext keyword c markers ownPid).excludes = c.excludes ++ markers :=
  cleanNames_of_plain fun w hw => hplain w (List.mem_append_right _ hw)

theorem isClean_of_plain : ∀ s ∈ psStages keyword c markers, s.IsClean := by
  have hdrop {w : String} (hw : IsPlain w) : (Stage.drop w).IsClean :=
    ⟨by simpa using hw.1, hw.notMem (by decide), hw.trimRight⟩
  refine isClean_wordStages ?_ ?_ 2
  · intro w hw
    rw [keptWords_of_plain hplain 0] at hw
    exact (hplain w (List.mem_append_left _ hw)).notMem (by decide)
  · simp only [droppedWords, List.forall_mem_append, List.forall_mem_cons]
    exact ⟨fun w hw => hdrop (hplain w (by simp [ruleWords, hw])), hdrop (by simp [IsPlain]),
      fun w hw => hdrop (hplain w (by simp [ruleWords, hw]))⟩

theorem passes_line (hspace : isWordChar ' ' = false) {r : Row}
    (hr : r.Fits (ruleWords keyword c markers)) (hgrep : Text.contains r.commandLine "grep" = false)
    (ownPid : UInt32) :
    passes isWordChar keyword c markers r.line =
      ((Query.ofContext keyword c markers ownPid).required.all
          (fun w => Text.contains r.commandLine w) &&
        !r.isDropped isWordChar (Query.ofContext keyword c markers ownPid)) := by
  have hkept : ((keptWords keyword c).all fun w => Chars.occursIn w.toList r.line) =
      (Query.ofContext keyword c markers ownPid).required.all
        fun w => Text.contains r.commandLine w := by
    rw [keptWords_of_plain hplain ownPid, Bool.eq_iff_iff, List.all_eq_true, List.all_eq_true]
    apply forall₂_congr
    intro w hw
    have hmem : w ∈ ruleWords keyword c markers := List.mem_append_left _ hw
    rw [hr.contains_line hmem (hplain w hmem)]
  have huser : Chars.occursAsWord isWordChar "grep".toList r.line =
      Chars.occursAsWord isWordChar "grep".toList r.user.toList := by
    rw [Row.occursAsWord_line hspace (by decide) (by decide),
      Chars.occursAsWord_eq_false (grep_notIn_pidText r.pid),
      Chars.occursAsWord_eq_false (grep_notIn_pidText r.ppid), Chars.occursAsWord_eq_false hgrep]
    simp
  have hnames : ((c.excludes ++ markers).all fun w =>
        !Chars.occursAsWord isWordChar w.toList r.line) =
      !(c.excludes ++ markers).any fun w =>
        Chars.occursAsWord isWordChar w.toList r.commandLine.toList := by
    rw [List.not_any_eq_all_not, Bool.eq_iff_iff, List.all_eq_true, List.all_eq_true]
    apply forall₂_congr
    intro w hw
    have hmem : w ∈ ruleWords keyword c markers := List.mem_append_right _ hw
    rw [hr.occursAsWord_line hmem (hplain w hmem) hspace]
  have hdropped : ((droppedWords c markers).all fun w =>
        !Chars.occursAsWord isWordChar w.toList r.line) =
      !r.isDropped isWordChar (Query.ofContext keyword c markers ownPid) := by
    unfold droppedWords Row.isDropped
    rw [excludes_of_plain hplain, Bool.not_or, ← hnames, ← huser]
    simp only [List.all_append, List.all_cons]
    ac_rfl
  unfold passes
  rw [hkept, hdropped]

end Plain

theorem filter_map_congr_iff {α β : Type} {f : α → β} {p q : α → Bool} {l : List α}
    (hnodup : (l.map f).Nodup) :
    (l.filter p).map f = (l.filter q).map f ↔ ∀ a ∈ l, p a = q a := by
  have hmem {p : α → Bool} {a : α} (ha : a ∈ l) : f a ∈ (l.filter p).map f ↔ p a = true := by
    constructor
    · intro h
      obtain ⟨b, hb, hab⟩ := List.mem_map.mp h
      rw [List.mem_filter] at hb
      rw [← List.inj_on_of_nodup_map hnodup hb.1 ha hab]
      exact hb.2
    · intro h
      exact List.mem_map_of_mem (List.mem_filter.mpr ⟨ha, h⟩)
  constructor
  · intro h a ha
    rw [Bool.eq_iff_iff, ← hmem ha, ← hmem ha, h]
  · intro h
    rw [List.filter_congr h]

theorem nodup_map_pidText {α : Type} {f : α → UInt32} {l : List α} (h : (l.map f).Nodup) :
    (l.map fun a => pidText (f a)).Nodup := by
  have hinjective : Function.Injective pidText := fun a b => pidText_inj.mp
  have hmap := h.map hinjective
  rwa [List.map_map] at hmap

theorem matchesCommandLine_eq (q : Query) (p : RunningProcess) :
    q.matchesCommandLine p = (q.isCandidate p && !q.isExcluded p.commandLine) := by
  unfold Query.matchesCommandLine Query.isCandidate
  rw [Bool.and_right_comm]

theorem byCommandLine_rows (q : Query) (rows : List Row) :
    q.byCommandLine (rows.map Row.toRunningProcess) =
      (rows.filter fun r => q.isCandidate r.toRunningProcess && !q.isExcluded r.commandLine).map
        fun r => pidText r.pid := by
  unfold Query.byCommandLine
  rw [List.filter_map, List.map_map]
  simp only [Function.comp_def, matchesCommandLine_eq]

theorem pidsOfColumn_fields (rows : List Row) (ownPid : UInt32) :
    pidsOfColumn
      (String.ofList ((rows.map fun r => (pidText r.pid).toList).flatMap fun w => w ++ [' ']))
        ownPid =
      (rows.filter fun r => r.pid != ownPid).map fun r => pidText r.pid := by
  have hcolumn := pidsOfColumn_flatMap (rows.map fun r => r.pid) ownPid
  rw [List.map_map, List.filter_map, List.map_map] at hcolumn
  exact hcolumn

theorem map_filter_eq_byCommandLine {q : Query} {rows : List Row} {dropped : Row → Bool}
    (h : ∀ r ∈ rows, q.isCandidate r.toRunningProcess → q.isExcluded r.commandLine = dropped r) :
    ((rows.filter fun r => q.isCandidate r.toRunningProcess && !dropped r).map fun r =>
      pidText r.pid) =
      q.byCommandLine (rows.map Row.toRunningProcess) := by
  rw [byCommandLine_rows]
  congr 1
  apply List.filter_congr
  intro r hr
  by_cases hcandidate : q.isCandidate r.toRunningProcess
  · rw [h r hr hcandidate]
  · simp [hcandidate]

/-- As no two processes have one id, dropping finds what the rules find only there. -/
theorem isExcluded_eq_of_map_filter_eq {q : Query} {rows : List Row} {dropped : Row → Bool}
    (hnodup : (rows.map fun r => r.pid).Nodup)
    (h : ((rows.filter fun r => q.isCandidate r.toRunningProcess && !dropped r).map
        fun r => pidText r.pid) = q.byCommandLine (rows.map Row.toRunningProcess)) :
    ∀ r ∈ rows, q.isCandidate r.toRunningProcess → q.isExcluded r.commandLine = dropped r := by
  intro r hr hcandidate
  rw [byCommandLine_rows, filter_map_congr_iff (nodup_map_pidText hnodup)] at h
  have hsame := h r hr
  rw [hcandidate, Bool.true_and, Bool.true_and] at hsame
  exact (Bool.not_inj hsame).symm

variable {isWordChar : Char → Bool} {keyword : String} {c : Context} {markers : List String}

theorem fields_of_passing {rows : List Row}
    (hrows : ∀ r ∈ rows, r.Fits (ruleWords keyword c markers)) :
    (((rows.map Row.line).filter (passes isWordChar keyword c markers)).map fun l =>
        ((Chars.words l)[1]?).getD []) =
      (rows.filter fun r => passes isWordChar keyword c markers r.line).map fun r =>
        (pidText r.pid).toList := by
  rw [List.filter_map, List.map_map]
  apply List.map_congr_left
  intro r hr
  have hfits := hrows r (List.mem_filter.mp hr).1
  simp only [Function.comp_def, hfits.words_line]
  rfl

/-- What a pipeline of `ps` finds in a table. It is what the rules find if a candidate that they
exclude is always dropped too, and, as no two processes have one id, only then. -/
theorem pidsOfColumn_psPipeline (hspace : isWordChar ' ' = false) {psArgs : String}
    (hargs : '|' ∉ psArgs.toList) (hplain : ∀ w ∈ ruleWords keyword c markers, IsPlain w)
    {rows : List Row} (hrows : ∀ r ∈ rows, r.Fits (ruleWords keyword c markers))
    (hgrep : ∀ r ∈ rows, Text.contains r.commandLine "grep" = false) (ownPid : UInt32) :
    let q := Query.ofContext keyword c markers ownPid
    ∃ text, output? isWordChar (psPipeline psArgs keyword c markers) (rows.map Row.line) =
      some text ∧
      pidsOfColumn text ownPid =
        (rows.filter fun r => q.isCandidate r.toRunningProcess && !r.isDropped isWordChar q).map
          (fun r => pidText r.pid) ∧
      ((∀ r ∈ rows, q.isCandidate r.toRunningProcess →
          q.isExcluded r.commandLine = r.isDropped isWordChar q) →
        pidsOfColumn text ownPid = q.byCommandLine (rows.map Row.toRunningProcess)) ∧
      ((rows.map fun r => r.pid).Nodup →
        pidsOfColumn text ownPid = q.byCommandLine (rows.map Row.toRunningProcess) →
        ∀ r ∈ rows, q.isCandidate r.toRunningProcess →
          q.isExcluded r.commandLine = r.isDropped isWordChar q) := by
  intro q
  refine ⟨_, output?_psPipeline hargs (isClean_of_plain hplain) _, ?_⟩
  rw [fields_of_passing hrows]
  have hpids := pidsOfColumn_fields
    (rows.filter fun r => passes isWordChar keyword c markers r.line) ownPid
  have hfound : ((rows.filter fun r => passes isWordChar keyword c markers r.line).filter
      fun r => r.pid != ownPid) =
        rows.filter fun r => q.isCandidate r.toRunningProcess && !r.isDropped isWordChar q := by
    rw [List.filter_filter]
    apply List.filter_congr
    intro r hr
    rw [passes_line hplain hspace (hrows r hr) (hgrep r hr) ownPid]
    unfold Query.isCandidate
    ac_rfl
  rw [hfound] at hpids
  rw [hpids]
  refine ⟨rfl, ?_, ?_⟩
  · intro h
    exact map_filter_eq_byCommandLine h
  · intro hnodup h
    exact isExcluded_eq_of_map_filter_eq hnodup h

def isAsciiWordChar (c : Char) : Bool := c.isAlphanum || c == '_'

/-- A process whose command line holds an excluded name inside a longer word is found by the
pipeline and not by the rules. -/
theorem pidsOfColumn_psPipeline_embedded_name :
    let rows : List Row :=
      [⟨⟨10, "sh", "foo bar"⟩, "root", 1⟩, ⟨⟨11, "sh", "foobarx"⟩, "root", 1⟩,
        ⟨⟨12, "sh", "foo"⟩, "root", 1⟩]
    let c := (Context.fresh 0).withExcludes ["bar"]
    ∃ text,
      output? isAsciiWordChar (psPipeline "-o user,pid,ppid,args" "foo" c ["chaos"])
        (rows.map Row.line) =
        some text ∧
      pidsOfColumn text 99 = ["11", "12"] ∧
      (Query.ofContext "foo" c ["chaos"] 99).byCommandLine (rows.map Row.toRunningProcess) =
        ["12"] := by
  intro rows c
  have hspace : isAsciiWordChar ' ' = false := by decide
  have hargs : '|' ∉ "-o user,pid,ppid,args".toList := bar_notMem_psArgs ⟨.linux, true⟩
  have hwords : ruleWords "foo" c ["chaos"] = ["foo", "bar", "chaos"] := by decide
  have hplain : ∀ w ∈ ruleWords "foo" c ["chaos"], IsPlain w := by
    rw [hwords]
    simp [IsPlain]
  have hrows : ∀ r ∈ rows, r.Fits (ruleWords "foo" c ["chaos"]) := by
    rw [hwords]
    intro r hr
    simp only [rows, List.mem_cons, List.not_mem_nil, or_false] at hr
    rcases hr with rfl | rfl | rfl <;> exact ⟨by decide, by simp [isBlank], by decide⟩
  have hgrep : ∀ r ∈ rows, Text.contains r.commandLine "grep" = false := by decide
  obtain ⟨text, htext, hpids, -⟩ := pidsOfColumn_psPipeline hspace hargs hplain hrows hgrep 99
  refine ⟨text, htext, ?_, by decide⟩
  rw [hpids]
  decide

end HostReach.Lookup
