import HostReach.Proofs.Channel.Installed
import HostReach.Proofs.Command.Classification
import HostReach.Proofs.Shell.Bytes

/-!
The words that a shell is handed. On the host the spaces of a script are escaped, so that the script
is the first word and the words of its arguments follow. Into namespaces a script goes as it is, and
its own spaces separate words too.
-/
namespace HostReach

/-- A command line that has a shell run a text, at once or by way of another program. -/
def CommandLine.HandsToShell (l : CommandLine) (payload : String) : Prop :=
  ∃ before, l.program :: l.args = before ++ ["/bin/sh", "-c", payload]

theorem Outcome.exists_classify_of_failure {o : Outcome} (command : String) (isSelf : Bool)
    (hrule : ¬o.MeetsRule) (hraw : ∀ r, Envelope.decode o.output ≠ .structured r)
    (hexit : o.exit ≠ .success) :
    ∃ error, o.exit.errorText? = some error ∧
      o.classify command isSelf =
        ⟨63063, false, "`" ++ command ++ "`: cmd exec failed, err: " ++ o.output ++
          (if isSelf then "" else " " ++ error), none⟩ := by
  obtain ⟨error, -, herror⟩ := exists_says_of_ne_success hexit
  cases hdecode : Envelope.decode o.output with
  | structured r => exact absurd hdecode (hraw r)
  | raw text reason =>
    exact ⟨error, herror, classify_of_failure command isSelf hrule hdecode herror⟩

namespace LocalChannel

theorem commandLine_handsToShell (script args : String) :
    (commandLine script args).HandsToShell (commandText script args) := ⟨[], rfl⟩

theorem readsAs_commandText (commands : Shell.Reader Shell.Command) {script args : String}
    (hne : script ≠ "") (hs : Shell.IsSpaced script) (hargs : Shell.IsSimple args.toList) :
    Shell.ReadsAs commands (commandText script args) (script :: Shell.splitWords args) := by
  rw [← Shell.splitWords_escapeSpaces hne hs.isPlain args]
  exact Shell.readsAs_splitWords commands
    (Shell.isSimple_append_space hs.isSimple_escapeSpaces hargs)

/-- On the host a script is the first word of what the shell is handed, and the words of the
arguments follow; where nothing but spaces and backslashes has a meaning, these are the words that
the shell reads. A run executes this text, and it is what the message of a failure calls the
command; a binary of the tool that is not there is named by its script, and nothing is executed. -/
theorem run_script_as_word (c : LocalChannel) (ctx : Context) {script : String} (hne : script ≠ "")
    (hs : ∀ ch ∈ script.toList, Shell.IsPlain ch) (args : String) (s : State) :
    ∃ payload, (commandLine script args).HandsToShell payload ∧
      Shell.splitWords payload = script :: Shell.splitWords args ∧
      (Shell.IsSpaced script → Shell.IsSimple args.toList →
        ∀ commands, Shell.ReadsAs commands payload (script :: Shell.splitWords args)) ∧
      let done := (c.run ctx script args).run s
      let isMissing := c.config.looksInstalled script = true ∧
        s.host.machine.files.isPresent script = false
      let isSelf := c.config.isSelf script
      let o := s.host.outcomeOf (commandLine script args) (ctx.limit s.host.now c.config.ceiling)
      (isMissing → done = (absence script, s)) ∧
      (¬isMissing →
        Executes c.config ctx (commandLine script args) payload isSelf s.host done.2.host done.1 ∧
        (¬o.MeetsRule → (∀ r, Envelope.decode o.output ≠ .structured r) → o.exit ≠ .success →
          ∃ error, o.exit.errorText? = some error ∧
            done.1 = ⟨63063, false, "`" ++ payload ++ "`: cmd exec failed, err: " ++ o.output ++
              (if isSelf then "" else " " ++ error), none⟩)) := by
  refine ⟨commandText script args, commandLine_handsToShell script args,
    Shell.splitWords_escapeSpaces hne hs args,
    fun hspaced hargs commands => readsAs_commandText commands hne hspaced hargs, ?_⟩
  intro done isMissing isSelf o
  obtain ⟨hrefused, hexecuted⟩ := c.run_cases ctx script args s
  rw [refuses_iff] at hrefused hexecuted
  refine ⟨hrefused, fun hpresent => ⟨hexecuted hpresent, fun hrule hraw hexit => ?_⟩⟩
  have hresponse : done.1 = o.classify (commandText script args) isSelf := (hexecuted hpresent).2
  rw [hresponse]
  exact Outcome.exists_classify_of_failure _ isSelf hrule hraw hexit

/-- A script with spaces at both ends and within, and arguments of which one has a space. -/
theorem run_script_as_word_spaces_everywhere :
    let script := " my  tool "
    let args := "-x  a\\ b"
    let s : State :=
      { host :=
        ⟨.start, [], .scripted [⟨"boom", .failed "exit status 1"⟩], ⟨.empty, [], []⟩, [], 7⟩ }
    let done :=
      (run ⟨.ofProgramPath "/opt/chaosblade", .pipeline⟩ (Context.fresh 0) script args).run s
    ∃ payload, (commandLine script args).HandsToShell payload ∧
      Shell.splitWords payload = [" my  tool ", "-x", "a b"] ∧
      (∀ commands, Shell.ReadsAs commands payload [" my  tool ", "-x", "a b"]) ∧
      done.1 =
        ⟨63063, false, "`" ++ payload ++ "`: cmd exec failed, err: boom exit status 1", none⟩ := by
  intro script args s done
  have hplain : ∀ ch ∈ script.toList, Shell.IsPlain ch := by
    simp [script, Shell.IsPlain, Shell.isSeparator]
  have hne : script ≠ "" := by decide
  have hspaced : Shell.IsSpaced script := by decide
  have hargs : Shell.IsSimple args.toList := by
    have hchars : args.toList = ['-', 'x', ' ', ' ', 'a', '\\', ' ', 'b'] := by decide
    rw [hchars]
    exact .literal (by decide) <| .literal (by decide) <| .gap (.inl rfl) <| .gap (.inl rfl) <|
      .literal (by decide) <| .quoted (by decide) <| .literal (by decide) .ended
  obtain ⟨payload, hhands, hwords, hread, -, hexecuted⟩ :=
    run_script_as_word ⟨.ofProgramPath "/opt/chaosblade", .pipeline⟩
      (Context.fresh 0) hne hplain args s
  obtain ⟨text, reason, hdecode⟩ : ∃ text reason, Envelope.decode "boom" = .raw text reason :=
    ⟨_, _, rfl⟩
  have hrule : ¬Outcome.MeetsRule ⟨"boom", .failed "exit status 1"⟩ := by
    rintro ⟨-, h⟩
    revert h
    decide
  obtain ⟨-, hfailed⟩ := hexecuted (by decide)
  have hexit : Exit.failed "exit status 1" ≠ .success := by simp
  obtain ⟨error, herror, hdone⟩ := hfailed hrule (fun r h => by cases hdecode.symm.trans h) hexit
  cases herror
  have hself : Config.isSelf (.ofProgramPath "/opt/chaosblade") script = false := by decide
  rw [hself] at hdone
  have hargsWords : Shell.splitWords args = ["-x", "a b"] := by decide
  rw [hargsWords] at hwords hread
  refine ⟨payload, hhands, hwords, hread hspaced hargs, hdone.trans ?_⟩
  change Response.mk 63063 false
    ("`" ++ payload ++ "`: cmd exec failed, err: " ++ "boom" ++ (" " ++ "exit status 1")) none = _
  simp [String.append_assoc]

end LocalChannel

namespace NamespacedChannel

theorem commandLine_handsToShell (c : NamespacedChannel) (t : NamespaceTarget)
    (script args : String) :
    (c.commandLine t script args).HandsToShell (payload script args) :=
  ⟨c.config.helperPath :: (helperOptions t ++ ["--"]), by simp [commandLine]⟩

theorem splitWords_payload {script : String} (hs : ∀ ch ∈ script.toList, Shell.IsPlain ch)
    (args : String) :
    Shell.splitWords (payload script args) = Shell.splitWords script ++ Shell.splitWords args := by
  unfold payload
  by_cases hargs : args = ""
  · have hnone : Shell.splitWords "" = [] := rfl
    rw [hargs, hnone, List.append_nil]
    rfl
  · rw [if_neg (by simpa using hargs), Shell.splitWords_append_space hs]

theorem readsAs_payload (commands : Shell.Reader Shell.Command) {script args : String}
    (hs : Shell.IsSpaced script) (hargs : Shell.IsSimple args.toList) :
    Shell.ReadsAs commands (payload script args)
      ((Text.splitAt ' ' script).filter (fun w => !w.isEmpty) ++ Shell.splitWords args) := by
  have hsimple : Shell.IsSimple (payload script args).toList := by
    unfold payload
    split
    · exact hs.isSimple
    · exact Shell.isSimple_append_space hs.isSimple hargs
  rw [← Shell.splitWords_eq hs.isPlain, ← splitWords_payload hs.isPlain args]
  exact Shell.readsAs_splitWords commands hsimple

end NamespacedChannel

/-- What the two channels hand to a shell is split into the script and the words of its arguments on
the host, and into the pieces of the script between its spaces and the words of its arguments inside
namespaces; where nothing but spaces and backslashes has a meaning, a shell reads just these words.
So both give the same words just for a script without a space. -/
theorem same_words_iff_no_space (c : NamespacedChannel) (t : NamespaceTarget) {script : String}
    (hne : script ≠ "") (hs : ∀ ch ∈ script.toList, Shell.IsPlain ch) (args : String) :
    ∃ onHost inside, (LocalChannel.commandLine script args).HandsToShell onHost ∧
      (c.commandLine t script args).HandsToShell inside ∧
      Shell.splitWords onHost = script :: Shell.splitWords args ∧
      Shell.splitWords inside =
        (Text.splitAt ' ' script).filter (fun w => !w.isEmpty) ++ Shell.splitWords args ∧
      (Shell.splitWords inside = Shell.splitWords onHost ↔ ' ' ∉ script.toList) ∧
      (Shell.IsSpaced script → Shell.IsSimple args.toList → ∀ commands,
        Shell.ReadsAs commands onHost (Shell.splitWords onHost) ∧
          Shell.ReadsAs commands inside (Shell.splitWords inside)) := by
  have honHost := Shell.splitWords_escapeSpaces hne hs args
  have hinside := NamespacedChannel.splitWords_payload hs args
  refine ⟨_, _, LocalChannel.commandLine_handsToShell script args,
    c.commandLine_handsToShell t script args, honHost, ?_, ?_,
    fun hspaced hargs commands => ⟨?_, ?_⟩⟩
  · rw [hinside, Shell.splitWords_eq hs]
  · rw [hinside, LocalChannel.commandText, honHost, ← List.singleton_append,
      List.append_cancel_right_eq, Shell.splitWords_eq_singleton_iff hne hs]
  · have hwords : Shell.splitWords (LocalChannel.commandText script args) =
        script :: Shell.splitWords args := honHost
    rw [hwords]
    exact LocalChannel.readsAs_commandText commands hne hspaced hargs
  · rw [hinside, Shell.splitWords_eq hs]
    exact NamespacedChannel.readsAs_payload commands hspaced hargs

/-- Inside namespaces a path with a space is two words. -/
theorem same_words_iff_no_space_my_tools :
    let script := "/opt/my tools/run.sh"
    let inNamespaces :=
      NamespacedChannel.commandLine ⟨.ofProgramPath "/opt/chaosblade"⟩
        ⟨42, true, false, true⟩ script
    ∃ onHost inside, (LocalChannel.commandLine script "--fast").HandsToShell onHost ∧
      (inNamespaces "--fast").HandsToShell inside ∧
      Shell.splitWords onHost = ["/opt/my tools/run.sh", "--fast"] ∧
      Shell.splitWords inside = ["/opt/my", "tools/run.sh", "--fast"] ∧
      Shell.splitWords inside ≠ Shell.splitWords onHost ∧
      ∀ commands, Shell.ReadsAs commands onHost ["/opt/my tools/run.sh", "--fast"] ∧
        Shell.ReadsAs commands inside ["/opt/my", "tools/run.sh", "--fast"] := by
  intro script inNamespaces
  have hplain : ∀ ch ∈ script.toList, Shell.IsPlain ch := by
    simp [script, Shell.IsPlain, Shell.isSeparator]
  have hne : script ≠ "" := by decide
  have hspaced : Shell.IsSpaced script := by decide
  have hargs : Shell.IsSimple "--fast".toList := (show Shell.IsSpaced "--fast" by decide).isSimple
  obtain ⟨onHost, inside, honHost, hinside, hescaped, hpieces, hsame, hread⟩ :=
    same_words_iff_no_space ⟨.ofProgramPath "/opt/chaosblade"⟩
      ⟨42, true, false, true⟩ hne hplain "--fast"
  have honHostWords : Shell.splitWords onHost = ["/opt/my tools/run.sh", "--fast"] :=
    hescaped.trans (by decide)
  have hinsideWords : Shell.splitWords inside = ["/opt/my", "tools/run.sh", "--fast"] :=
    hpieces.trans (by decide)
  refine ⟨onHost, inside, honHost, hinside, honHostWords, hinsideWords, mt hsame.mp (by decide), ?_⟩
  rw [← honHostWords, ← hinsideWords]
  exact hread hspaced hargs

end HostReach
