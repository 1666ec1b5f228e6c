import HostReach.Command.Line

/-!
The text of a command line for messages, read back. Spaces outside double quotes separate the
program and the arguments, and the quotes are dropped; empty arguments and white space inside of
arguments come back as they were.
-/
namespace HostReach.CommandLine

/-- The pieces of a text between the spaces that stand outside double quotes, without the quotes. -/
def splitUnquoted (isQuoted : Bool) : List Char → List (List Char)
  | [] => [[]]
  | c :: t =>
    if c = '"' then splitUnquoted (!isQuoted) t
    else if c = ' ' ∧ isQuoted = false then [] :: splitUnquoted false t
    else (splitUnquoted isQuoted t).modifyHead (c :: ·)

def readBack (text : String) : List String := (splitUnquoted false text.toList).map String.ofList

/-- What it takes for the text of a command line to tell what it consists of. A program free of
white space has no space. -/
structure IsReadable (l : CommandLine) : Prop where
  program_space : ' ' ∉ l.program.toList
  program_quote : '"' ∉ l.program.toList
  args_quote : ∀ a ∈ l.args, '"' ∉ a.toList

instance (l : CommandLine) : Decidable l.IsReadable :=
  decidable_of_iff (' ' ∉ l.program.toList ∧ '"' ∉ l.program.toList ∧ ∀ a ∈ l.args, '"' ∉ a.toList)
    ⟨fun ⟨hspace, hquote, hargs⟩ => ⟨hspace, hquote, hargs⟩,
      fun ⟨hspace, hquote, hargs⟩ => ⟨hspace, hquote, hargs⟩⟩

variable {isQuoted : Bool} {w : List Char} {l : CommandLine}

theorem splitUnquoted_append (hquote : '"' ∉ w) (hspace : isQuoted = true ∨ ' ' ∉ w)
    (t : List Char) :
    splitUnquoted isQuoted (w ++ t) = (splitUnquoted isQuoted t).modifyHead (w ++ ·) := by
  induction w with
  | nil => exact (congrFun List.modifyHead_id (splitUnquoted isQuoted t)).symm
  | cons c w ih =>
    rw [List.mem_cons, not_or] at hquote
    have hends : ¬(c = ' ' ∧ isQuoted = false) := by
      rintro ⟨rfl, rfl⟩
      simp at hspace
    have hrest : isQuoted = true ∨ ' ' ∉ w :=
      hspace.imp_right fun h hmem => h (List.mem_cons_of_mem c hmem)
    rw [List.cons_append, splitUnquoted, if_neg (Ne.symm hquote.1), if_neg hends, ih hquote.2 hrest,
      List.modifyHead_modifyHead]
    rfl

theorem splitUnquoted_quoted (hquote : '"' ∉ w) (t : List Char) :
    splitUnquoted false ('"' :: (w ++ '"' :: t)) = (splitUnquoted false t).modifyHead (w ++ ·) := by
  rw [splitUnquoted, if_pos rfl]
  exact splitUnquoted_append hquote (.inl rfl) ('"' :: t)

theorem splitUnquoted_showArg {a : String} (hquote : '"' ∉ a.toList) (t : List Char) :
    splitUnquoted false ((showArg a).toList ++ t) =
      (splitUnquoted false t).modifyHead (a.toList ++ ·) := by
  unfold showArg
  split
  · have htext : ("\"" ++ a ++ "\"").toList ++ t = '"' :: (a.toList ++ '"' :: t) := by simp
    rw [htext]
    exact splitUnquoted_quoted hquote t
  · next hplain =>
    apply splitUnquoted_append hquote
    right
    intro hmem
    apply hplain
    rw [Bool.or_eq_true, List.any_eq_true]
    exact .inr ⟨' ', hmem, rfl⟩

theorem splitUnquoted_args {args : List String} (h : ∀ a ∈ args, '"' ∉ a.toList) :
    splitUnquoted false (args.flatMap fun a => ' ' :: (showArg a).toList) =
      [] :: args.map String.toList := by
  induction args with
  | nil => rfl
  | cons a args ih =>
    rw [List.forall_mem_cons] at h
    rw [List.flatMap_cons, List.cons_append, splitUnquoted, if_neg (by decide), if_pos ⟨rfl, rfl⟩,
      splitUnquoted_showArg h.1, ih h.2, List.modifyHead_cons, List.append_nil, List.map_cons]

theorem toList_display (l : CommandLine) :
    l.display.toList = l.program.toList ++ l.args.flatMap fun a => ' ' :: (showArg a).toList := by
  unfold display
  rw [String.toList_append, String.toList_join, List.flatMap_map]
  simp

theorem IsReadable.splitUnquoted_display (h : l.IsReadable) :
    splitUnquoted false l.display.toList = l.program.toList :: l.args.map String.toList := by
  rw [toList_display, splitUnquoted_append h.program_quote (.inr h.program_space),
    splitUnquoted_args h.args_quote, List.modifyHead_cons, List.append_nil]

theorem notMem_of_mem_modifyHead_cons {q c : Char} (hc : q ≠ c) {pieces : List (List Char)}
    (h : ∀ p ∈ pieces, q ∉ p) : ∀ p ∈ pieces.modifyHead (c :: ·), q ∉ p := by
  cases pieces with
  | nil => exact h
  | cons first others =>
    rw [List.forall_mem_cons] at h
    rw [List.modifyHead_cons, List.forall_mem_cons, List.mem_cons, not_or]
    exact ⟨⟨hc, h.1⟩, h.2⟩

theorem quote_notMem_splitUnquoted (t : List Char) : ∀ p ∈ splitUnquoted isQuoted t, '"' ∉ p := by
  induction t generalizing isQuoted with
  | nil => simp [splitUnquoted]
  | cons c t ih =>
    rw [splitUnquoted]
    split
    · exact ih
    · next hc =>
      split
      · rw [List.forall_mem_cons]
        exact ⟨List.not_mem_nil, ih⟩
      · exact notMem_of_mem_modifyHead_cons (Ne.symm hc) ih

theorem length_splitUnquoted_append (hquote : '"' ∉ w) (t : List Char) :
    (splitUnquoted false (w ++ t)).length = w.count ' ' + (splitUnquoted false t).length := by
  induction w with
  | nil => simp
  | cons c w ih =>
    rw [List.mem_cons, not_or] at hquote
    rw [List.cons_append, splitUnquoted, if_neg (Ne.symm hquote.1), List.count_cons]
    by_cases hc : c = ' '
    · rw [if_pos ⟨hc, rfl⟩, List.length_cons, ih hquote.2, if_pos (by rw [hc]; rfl)]
      omega
    · rw [if_neg (fun h => hc h.1), List.length_modifyHead, ih hquote.2,
        if_neg (by simpa using hc), Nat.add_zero]

theorem readBack_eq_iff {text : String} {words : List String} :
    readBack text = words ↔ splitUnquoted false text.toList = words.map String.toList := by
  unfold readBack
  constructor
  · rintro rfl
    simp [List.map_map, Function.comp_def]
  · intro h
    rw [h]
    simp [List.map_map, Function.comp_def]

theorem isReadable_of_readBack (h : readBack l.display = l.program :: l.args) : l.IsReadable := by
  rw [readBack_eq_iff, List.map_cons] at h
  have hquote : ∀ p ∈ l.program.toList :: l.args.map String.toList, '"' ∉ p := by
    intro p hp
    rw [← h] at hp
    exact quote_notMem_splitUnquoted _ p hp
  rw [List.forall_mem_cons, List.forall_mem_map] at hquote
  obtain ⟨hprogram, hargs⟩ := hquote
  refine ⟨?_, hprogram, hargs⟩
  have hlength := congrArg List.length h
  rw [toList_display, length_splitUnquoted_append hprogram, splitUnquoted_args hargs,
    List.length_cons, List.length_cons] at hlength
  rw [← List.count_eq_zero]
  omega

/-- The text of a command line gives back the program and the arguments exactly if the program has
no space and there is no quote in it or in an argument. Two such command lines of one text are the
same. -/
theorem display_unambiguous :
    (∀ l : CommandLine, readBack l.display = l.program :: l.args ↔ l.IsReadable) ∧
    ∀ l₁ l₂ : CommandLine, l₁.IsReadable → l₂.IsReadable → l₁.display = l₂.display → l₁ = l₂ := by
  have hread : ∀ l : CommandLine, l.IsReadable → readBack l.display = l.program :: l.args := by
    intro l hl
    rw [readBack_eq_iff]
    exact hl.splitUnquoted_display
  constructor
  · intro l
    exact ⟨isReadable_of_readBack, hread l⟩
  · rintro ⟨program₁, args₁⟩ ⟨program₂, args₂⟩ h₁ h₂ hdisplay
    have hwords := hread _ h₁
    rw [hdisplay, hread _ h₂, List.cons.injEq] at hwords
    rw [CommandLine.mk.injEq]
    exact ⟨hwords.1.symm, hwords.2.symm⟩

/-- An empty argument, one of wide white space and line breaks, and one that ends with a space. -/
theorem display_unambiguous_blank_arguments :
    let blanks := ["", "ps\u2003-ef\n", " x "]
    let l : CommandLine := ⟨"/opt/bin/nsexec", ["-t", "42", "--"] ++ blanks⟩
    let same : CommandLine := ⟨"/opt/bin/nsexec", "-t" :: "42" :: "--" :: blanks⟩
    l.display = "/opt/bin/nsexec -t 42 -- \"\" \"ps\u2003-ef\n\" \" x \"" ∧
      readBack l.display = "/opt/bin/nsexec" :: "-t" :: "42" :: "--" :: blanks ∧ l = same := by
  intro blanks l same
  have hl : l.IsReadable := by decide
  have hsame : same.IsReadable := by decide
  obtain ⟨hread, hinjective⟩ := display_unambiguous
  exact ⟨by decide, (hread l).mpr hl, hinjective l same hl hsame rfl⟩

end HostReach.CommandLine
