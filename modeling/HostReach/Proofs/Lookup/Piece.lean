import HostReach.Proofs.Context.Excludes
import HostReach.Proofs.Lookup.Stage

/-!
The text of a pipeline cut at its bars: whichever filters are set and however many names are
excluded, the pieces are the commands that the rules call for, each of them once and in order.
-/
namespace HostReach.Lookup

/-- The pieces of a text between bars, without the white space around them. -/
def pieces (text : String) : List String := (Text.splitAt '|' text).map Text.trim

theorem pieces_eq (text : String) : pieces text = (commands text.toList).map String.ofList := by
  unfold pieces commands Text.splitAt
  rw [List.map_map, List.map_map]
  apply List.map_congr_left
  intro t _
  simp [Text.trim]

/-- A word that the text of a pipeline holds in one piece: not blank, no white space at its ends,
and no bar in it. -/
structure IsOperand (w : String) : Prop extends Context.IsCleanName w where
  no_bar : '|' ∉ w.toList

namespace IsOperand

variable {w : String} (hw : IsOperand w)

include hw

theorem trim_toList : Chars.trim w.toList = w.toList := by
  have htrim := congrArg String.toList hw.trim_eq
  rwa [Text.trim, String.toList_ofList] at htrim

theorem isClean_keep : (Stage.keep w).IsClean := hw.no_bar

theorem isClean_keep_escapeDash : (Stage.keep (escapeDash w)).IsClean := by
  have hbar := hw.no_bar
  change '|' ∉ (escapeDash w).toList
  unfold escapeDash
  split
  · simpa using hbar
  · exact hbar

theorem isClean_drop : (Stage.drop w).IsClean :=
  ⟨hw.ne_empty, hw.no_bar, Chars.trimRight_of_trim hw.trim_toList⟩

theorem trim_option : Chars.trim ("-l ".toList ++ w.toList) = "-l ".toList ++ w.toList := by
  have hne : w.toList ≠ [] := by simpa using hw.ne_empty
  have hoption : "-l ".toList ++ w.toList = '-' :: ("l ".toList ++ w.toList) := rfl
  have hright := Chars.trimRight_append ("-l ".toList) hne (Chars.trimRight_of_trim hw.trim_toList)
  rw [hoption] at hright ⊢
  rw [Chars.trim, Chars.trimLeft_cons (by decide), hright]

end IsOperand

theorem nonEmpty_of_isOperand {word : Option String} (h : ∀ w ∈ word, IsOperand w) :
    Context.nonEmpty word = word := by
  cases word with
  | none => rfl
  | some w =>
    have hne := (h w rfl).ne_empty
    simp [Context.nonEmpty, Option.filter, hne]

theorem map_ofList_text (stages : List Stage) :
    (stages.map fun s => s.text.toList).map String.ofList = stages.map Stage.text := by
  rw [List.map_map]
  apply List.map_congr_left
  intro s _
  exact String.ofList_toList

section Pieces

variable {c : Context} {markers : List String} (hnames : ∀ w ∈ c.excludes ++ markers, IsOperand w)

include hnames

theorem isClean_psStages {keyword : String} (hkeyword : IsOperand keyword)
    (hfilter : ∀ w ∈ c.processFilter, IsOperand w)
    (hcommand : ∀ w ∈ c.processCommand, IsOperand w) :
    ∀ s ∈ psStages keyword c markers, s.IsClean := by
  rw [List.forall_mem_append] at hnames
  refine isClean_wordStages ?_ ?_ 2
  · simp only [keptWords, List.forall_mem_cons, List.forall_mem_append, Option.mem_toList]
    exact ⟨hkeyword.isClean_keep_escapeDash, fun w hw => (hfilter w hw).isClean_keep,
      fun w hw => (hcommand w hw).isClean_keep⟩
  · simp only [droppedWords, List.forall_mem_append, List.forall_mem_cons]
    exact ⟨fun w hw => (hnames.1 w hw).isClean_drop, ⟨by decide, by decide, by decide⟩,
      fun w hw => (hnames.2 w hw).isClean_drop⟩

theorem isClean_pgrepStages : ∀ s ∈ pgrepStages c markers, s.IsClean :=
  isClean_wordStages (by simp) (fun w hw => (hnames w hw).isClean_drop) 1

theorem pieces_psPipeline {psArgs keyword : String} (hargs : IsOperand psArgs)
    (hkeyword : IsOperand keyword) (hfilter : ∀ w ∈ c.processFilter, IsOperand w)
    (hcommand : ∀ w ∈ c.processCommand, IsOperand w) :
    pieces (psPipeline psArgs keyword c markers) =
      psArgs :: (psStages keyword c markers).map Stage.text := by
  rw [pieces_eq, commands_psPipeline hargs.no_bar
    (isClean_psStages hnames hkeyword hfilter hcommand),
    hargs.trim_toList, List.map_cons, String.ofList_toList, map_ofList_text]

theorem pieces_pgrepPipeline {name : String} (hname : IsOperand name) :
    pieces (pgrepPipeline name c markers) =
      ("-l " ++ name) :: (pgrepStages c markers).map Stage.text := by
  rw [pieces_eq, commands_pgrepPipeline hname.no_bar (isClean_pgrepStages hnames),
    hname.trim_option, List.map_cons, ← String.toList_append, String.ofList_toList, map_ofList_text]

end Pieces

/-- Cut at its bars, the text of a pipeline gives the commands that the rules call for, in order:
`ps` with its arguments, what keeps the lines with the keyword and the filters, what drops the lines
with an excluded name, the pipeline's own or a marker, and what prints the column; and likewise for
`pgrep`. No piece is empty. -/
theorem pieces_pipelines {psArgs keyword name : String} {c : Context} {markers : List String}
    (hargs : IsOperand psArgs) (hkeyword : IsOperand keyword) (hname : IsOperand name)
    (hfilter : ∀ w ∈ c.rawProcessFilter, IsOperand w)
    (hcommand : ∀ w ∈ c.rawProcessCommand, IsOperand w)
    (hnames : ∀ w ∈ c.excludes ++ markers, IsOperand w) :
    let kept (w : String) := "grep \"" ++ w ++ "\""
    let dropped (w : String) := "grep -v -w " ++ w
    pieces (psPipeline psArgs keyword c markers) =
      psArgs :: kept (if keyword.toList.head? = some '-' then "\\" ++ keyword else keyword) ::
        (c.rawProcessFilter.toList.map kept ++ c.rawProcessCommand.toList.map kept ++
          c.excludes.map dropped ++
          dropped "grep" :: markers.map dropped ++ ["awk '\x7bprint $2\x7d'", "tr '\\n' ' '"]) ∧
    pieces (pgrepPipeline name c markers) =
      ("-l " ++ name) :: (c.excludes.map dropped ++ markers.map dropped ++
        ["awk '\x7bprint $1\x7d'", "tr '\\n' ' '"]) ∧
    "" ∉ pieces (psPipeline psArgs keyword c markers) ∧
    "" ∉ pieces (pgrepPipeline name c markers) := by
  intro kept dropped
  have hfilterSet : c.processFilter = c.rawProcessFilter := nonEmpty_of_isOperand hfilter
  have hcommandSet : c.processCommand = c.rawProcessCommand := nonEmpty_of_isOperand hcommand
  have hps := pieces_psPipeline hnames hargs hkeyword (by rwa [hfilterSet]) (by rwa [hcommandSet])
  have hpgrep := pieces_pgrepPipeline hnames hname
  have hkept : Stage.text ∘ .keep = kept := by
    funext w
    change "grep " ++ ("\"" ++ w ++ "\"") = "grep " ++ "\"" ++ w ++ "\""
    simp only [String.append_assoc]
  have hdropped : Stage.text ∘ .drop = dropped := rfl
  refine ⟨?_, ?_, ?_, ?_⟩
  · rw [hps, psStages, keptWords, droppedWords, hfilterSet, hcommandSet, escapeDash]
    simp only [List.map_append, List.map_map, hkept, hdropped, List.map_cons, List.cons_append,
      List.append_assoc, beq_iff_eq]
    rfl
  · rw [hpgrep, pgrepStages_eq]
    simp only [List.map_append, List.map_map, hdropped, List.append_assoc]
    rfl
  · simp [hps, hargs.ne_empty, Stage.text_ne_empty]
  · simp [hpgrep, Stage.text_ne_empty]

/-- A keyword with a leading dash, both filters, two excluded names and a marker. -/
theorem pieces_pipelines_all_parts :
    let c :=
      (((Context.fresh 0).withProcessFilter "app.jar").withProcessCommand "java").withExcludeList
        " nginx,,sh -c"
    pieces (psPipeline "-eo user,pid,ppid,args" "-Dapp" c ["chaos_stop"]) =
      ["-eo user,pid,ppid,args", "grep \"\\-Dapp\"", "grep \"app.jar\"", "grep \"java\"",
        "grep -v -w nginx", "grep -v -w sh -c", "grep -v -w grep", "grep -v -w chaos_stop",
        "awk '\x7bprint $2\x7d'", "tr '\\n' ' '"] ∧
    pieces (pgrepPipeline "java" c ["chaos_stop"]) =
      ["-l java", "grep -v -w nginx", "grep -v -w sh -c", "grep -v -w chaos_stop",
        "awk '\x7bprint $1\x7d'", "tr '\\n' ' '"] := by
  intro c
  have hoperand (w : String) (h : Text.trim w = w ∧ w ≠ "" ∧ '|' ∉ w.toList) : IsOperand w :=
    ⟨⟨h.1, h.2.1⟩, h.2.2⟩
  have hfilter : ∀ w ∈ c.rawProcessFilter, IsOperand w := by
    rintro w ⟨⟩
    exact hoperand _ (by decide)
  have hcommand : ∀ w ∈ c.rawProcessCommand, IsOperand w := by
    rintro w ⟨⟩
    exact hoperand _ (by decide)
  have hnames : ∀ w ∈ c.excludes ++ ["chaos_stop"], IsOperand w := fun w hw =>
    hoperand w (by revert w; decide)
  obtain ⟨hps, hpgrep, -⟩ := pieces_pipelines (hoperand "-eo user,pid,ppid,args" (by decide))
    (hoperand "-Dapp" (by decide)) (hoperand "java" (by decide)) hfilter hcommand hnames
  exact ⟨hps.trans (by decide), hpgrep.trans (by decide)⟩

end HostReach.Lookup
