import HostReach.Lookup.Pipeline
import HostReach.Platform
import HostReach.Proofs.Text.Cut
import HostReach.Proofs.Text.Decimal
import HostReach.Proofs.Text.Occurrence

/-!
The text of a pipeline is cut at its bars into the commands of a list of stages, and what it prints
is what these stages, one after the other, make of the lines that they are given.
-/
namespace HostReach.Lookup

inductive Stage where
  /-- The lines that contain a word. -/
  | keep (word : String)
  /-- The lines in which a word is no whole word. -/
  | drop (word : String)
  | field (n : Nat)
  /-- All lines as one, a space behind each. -/
  | join
  deriving DecidableEq, Repr

namespace Stage

def text : Stage → String
  | .keep w => "grep " ++ quotedWord w
  | .drop w => "grep -v -w " ++ w
  | .field n => "awk '\x7bprint $" ++ Decimal.ofNat n ++ "\x7d'"
  | .join => "tr '\\n' ' '"

def run (isWordChar : Char → Bool) (lines : List (List Char)) : Stage → List (List Char)
  | .keep w => lines.filter fun l => Chars.occursIn w.toList l
  | .drop w => lines.filter fun l => !Chars.occursAsWord isWordChar w.toList l
  | .field n => lines.map fun l => ((Chars.words l)[n - 1]?).getD []
  | .join => [lines.flatMap fun l => l ++ [' ']]

def IsClean : Stage → Prop
  | .keep w => '|' ∉ w.toList
  | .drop w => w ≠ "" ∧ '|' ∉ w.toList ∧ Chars.trimRight w.toList = w.toList
  | _ => True

theorem bar_notMem_text {s : Stage} (hs : s.IsClean) : '|' ∉ s.text.toList := by
  cases s with
  | keep w =>
    unfold IsClean at hs
    simp [text, quotedWord, hs]
  | drop w => simp [text, hs.2.1]
  | field n =>
    have hdigits : '|' ∉ Decimal.digits n := by
      intro h
      have hbar := Decimal.isDigit_of_mem_digits h
      revert hbar
      decide
    simp [text, Decimal.ofNat, hdigits]
  | join => decide

theorem text_ne_empty (s : Stage) : s.text ≠ "" := by
  cases s <;> simp [text]

theorem trim_space_text {s : Stage} (hs : s.IsClean) :
    Chars.trim (' ' :: s.text.toList) = s.text.toList := by
  have trims {c : Char} {a t : List Char} (htext : s.text.toList = c :: (a ++ t))
      (hc : isBlank c = false) (hne : t ≠ []) (ht : Chars.trimRight t = t) :
      Chars.trim (' ' :: s.text.toList) = s.text.toList := by
    have hleft := Chars.trimLeft_append_of_blank (s := [' ']) (by simp [isBlank]) (c :: (a ++ t))
    have hright := Chars.trimRight_append (c :: a) hne ht
    unfold Chars.trim
    rw [List.singleton_append, Chars.trimLeft_cons hc] at hleft
    rw [htext, hleft]
    exact hright
  cases s with
  | keep w =>
    have htext : (keep w).text.toList = 'g' :: ("rep \"".toList ++ w.toList ++ ['\x22']) := by
      simp [text, quotedWord]
    exact trims htext (by decide) (by decide) (by decide)
  | drop w =>
    have htext : (drop w).text.toList = 'g' :: ("rep -v -w ".toList ++ w.toList) := by
      simp [text]
    exact trims htext (by decide) (by simpa using hs.1) hs.2.2
  | field n =>
    have htext : (field n).text.toList =
        'a' :: ("wk '\x7bprint $".toList ++ Decimal.digits n ++ ['\x7d', '\x27']) := by
      simp [text, Decimal.ofNat]
    exact trims htext (by decide) (by decide) (by decide)
  | join => decide

def after? : List Char → List Char → Option (List Char)
  | [], t => some t
  | _ :: _, [] => none
  | c :: p, d :: t => if c = d then after? p t else none

theorem after?_append (p t : List Char) : after? p (p ++ t) = some t := by
  induction p with
  | nil => rfl
  | cons c p ih => rw [List.cons_append, after?, if_pos rfl, ih]

def ofText? (t : List Char) : Option Stage :=
  match after? "grep \x22".toList t, after? "grep -v -w ".toList t,
    after? "awk '\x7bprint $".toList t with
  | some r, _, _ =>
    if r.getLast? = some '\x22' then some (.keep (String.ofList r.dropLast)) else none
  | _, some r, _ => some (.drop (String.ofList r))
  | _, _, some r =>
    if r.dropWhile Decimal.isDigit = ['\x7d', '\x27'] then
      some (.field (Decimal.toNat (r.takeWhile Decimal.isDigit)))
    else none
  | _, _, _ => if t = join.text.toList then some .join else none

theorem ofText?_text (s : Stage) : ofText? s.text.toList = some s := by
  cases s with
  | keep w =>
    have htext : (keep w).text.toList = "grep \x22".toList ++ (w.toList ++ ['\x22']) := by
      simp [text, quotedWord]
    unfold ofText?
    rw [htext, after?_append]
    simp
  | drop w =>
    have htext : (drop w).text.toList = "grep -v -w ".toList ++ w.toList := by
      simp [text]
    have hkeep : after? "grep \x22".toList ("grep -v -w ".toList ++ w.toList) = none := rfl
    unfold ofText?
    rw [htext, hkeep, after?_append]
    simp
  | field n =>
    have htext : (field n).text.toList =
        "awk '\x7bprint $".toList ++ (Decimal.digits n ++ ['\x7d', '\x27']) := by
      simp [text, Decimal.ofNat]
    have hdigits : ∀ c ∈ Decimal.digits n, Decimal.isDigit c := fun c =>
      Decimal.isDigit_of_mem_digits
    have hkeep (t : List Char) : after? "grep \x22".toList ("awk '\x7bprint $".toList ++ t) =
        none := rfl
    have hdrop (t : List Char) : after? "grep -v -w ".toList ("awk '\x7bprint $".toList ++ t) =
        none := rfl
    unfold ofText?
    rw [htext, hkeep, hdrop, after?_append]
    simp only [List.takeWhile_append_of_pos hdigits, List.dropWhile_append_of_pos hdigits]
    simp [Decimal.isDigit]
  | join => rfl

end Stage

def commands (text : List Char) : List (List Char) := (Chars.splitAt '|' text).map Chars.trim

theorem commands_append_bar {a : List Char} (ha : '|' ∉ a) (b : List Char) :
    commands (a ++ '|' :: b) = Chars.trim a :: commands b := by
  unfold commands
  rw [Chars.splitAt_append_cons ha, List.map_cons]

/-- Text that adds stages to a command: each behind a bar, with spaces before the bar and one behind
it. -/
inductive IsPiped : List Stage → List Char → Prop where
  | ended (spaces : Nat) : IsPiped [] (List.replicate spaces ' ')
  | stage (spaces : Nat) (s : Stage) {stages : List Stage} {t : List Char} (ht : IsPiped stages t) :
      IsPiped (s :: stages) (List.replicate spaces ' ' ++ '|' :: ' ' :: (s.text.toList ++ t))

def barred (spaces : Nat) (stages : List Stage) : List Char :=
  stages.flatMap fun s => List.replicate spaces ' ' ++ '|' :: ' ' :: s.text.toList

namespace IsPiped

variable {stages : List Stage} {t : List Char} (h : IsPiped stages t)

include h

theorem space : IsPiped stages (' ' :: t) := by
  cases h with
  | ended spaces => exact .ended (spaces + 1)
  | stage spaces s ht => exact .stage (spaces + 1) s ht

theorem barred (spaces : Nat) (first : List Stage) :
    IsPiped (first ++ stages) (barred spaces first ++ t) := by
  unfold Lookup.barred
  induction first with
  | nil => exact h
  | cons s first ih => simpa using ih.stage spaces s

theorem commands (hclean : ∀ s ∈ stages, s.IsClean) {head : List Char} (hhead : '|' ∉ head) :
    commands (head ++ t) = Chars.trim head :: stages.map fun s => s.text.toList := by
  have hspaces (n : Nat) : ∀ c ∈ List.replicate n ' ', isBlank c = true := by simp [isBlank]
  induction h generalizing head with
  | ended spaces =>
    have hnobar : '|' ∉ head ++ List.replicate spaces ' ' := by simp [hhead]
    rw [Lookup.commands, Chars.splitAt_of_not_mem hnobar, List.map_singleton,
      Chars.trim_append_of_blank head (hspaces spaces)]
    rfl
  | stage spaces s ht ih =>
    rw [List.forall_mem_cons] at hclean
    have hnobar : '|' ∉ head ++ List.replicate spaces ' ' := by simp [hhead]
    have hbar : '|' ∉ ' ' :: s.text.toList := by simpa using Stage.bar_notMem_text hclean.1
    have hrest := ih hclean.2 hbar
    rw [← List.append_assoc, commands_append_bar hnobar,
      Chars.trim_append_of_blank head (hspaces spaces), ← List.cons_append, hrest,
      Stage.trim_space_text hclean.1]
    rfl

end IsPiped

theorem toList_excludeStages (c : Context) :
    (excludeStages c).toList = barred 0 (c.excludes.map .drop) := by
  simp [excludeStages, barred, dropWord, Stage.text, String.toList_join, List.flatMap_map]

theorem toList_markerStages (markers : List String) :
    (markerStages markers).toList = barred 1 (markers.map .drop) := by
  simp [markerStages, barred, dropWord, Stage.text, String.toList_join, List.flatMap_map]

theorem toList_fieldStages (n : Nat) :
    (fieldStages (Decimal.ofNat n)).toList = barred 1 [.field n, .join] := by
  unfold fieldStages
  simp [barred, Stage.text]

def keptWords (keyword : String) (c : Context) : List String :=
  escapeDash keyword :: (c.processFilter.toList ++ c.processCommand.toList)

/-- The words that a line must not have; `grep` is for the pipeline itself. -/
def droppedWords (c : Context) (markers : List String) : List String :=
  c.excludes ++ "grep" :: markers

def wordStages (kept dropped : List String) (n : Nat) : List Stage :=
  kept.map .keep ++ (dropped.map .drop ++ [.field n, .join])

theorem isClean_wordStages {kept dropped : List String} (hkept : ∀ w ∈ kept, (Stage.keep w).IsClean)
    (hdropped : ∀ w ∈ dropped, (Stage.drop w).IsClean)
    (n : Nat) : ∀ s ∈ wordStages kept dropped n, s.IsClean := by
  unfold wordStages
  simp only [List.forall_mem_append, List.forall_mem_map]
  exact ⟨hkept, hdropped, by simp [Stage.IsClean]⟩

def psStages (keyword : String) (c : Context) (markers : List String) : List Stage :=
  (keptWords keyword c).map .keep ++ ((droppedWords c markers).map .drop ++ [.field 2, .join])

theorem psStages_eq (keyword : String) (c : Context) (markers : List String) :
    psStages keyword c markers =
      [.keep (escapeDash keyword)] ++ (c.processFilter.toList.map .keep ++
        (c.processCommand.toList.map .keep ++ (c.excludes.map .drop ++ ([.drop "grep"] ++
          (markers.map .drop ++ [.field 2, .join]))))) := by
  simp [psStages, keptWords, droppedWords]

theorem toList_psPipeline (psArgs keyword : String) (c : Context) (markers : List String) :
    (psPipeline psArgs keyword c markers).toList =
      psArgs.toList ++ (barred 1 [.keep (escapeDash keyword)] ++ ' ' ::
        (barred 0 (c.processFilter.toList.map .keep) ++
          (barred 1 (c.processCommand.toList.map .keep) ++ ' ' ::
            (barred 0 (c.excludes.map .drop) ++ (barred 1 [.drop "grep"] ++
              (barred 1 (markers.map .drop) ++ barred 1 [.field 2, .join])))))) := by
  have hkeyword : " | grep ".toList ++ (quotedWord (escapeDash keyword)).toList =
      barred 1 [.keep (escapeDash keyword)] := by
    simp [barred, Stage.text]
  have hfilter : ((c.processFilter.map fun w => "| grep " ++ quotedWord w).getD "").toList =
      barred 0 (c.processFilter.toList.map .keep) := by
    cases c.processFilter with
    | none => rfl
    | some w => simp [barred, Stage.text]
  have hcommand : ((c.processCommand.map fun w => " | grep " ++ quotedWord w).getD "").toList =
      barred 1 (c.processCommand.toList.map .keep) := by
    cases c.processCommand with
    | none => rfl
    | some w => simp [barred, Stage.text]
  have hgrep : " | grep -v -w grep".toList = barred 1 [.drop "grep"] := rfl
  have hfield := toList_fieldStages 2
  rw [show Decimal.ofNat 2 = "2" from rfl] at hfield
  unfold psPipeline
  rw [← hkeyword]
  simp only [String.toList_append, hfilter, hcommand, toList_excludeStages, hgrep,
    toList_markerStages, hfield, List.append_assoc]
  rfl

theorem isPiped_fieldStages (n : Nat) : IsPiped [.field n, .join] (barred 1 [.field n, .join]) := by
  have h := (IsPiped.ended 0).barred 1 [.field n, .join]
  rwa [List.replicate_zero, List.append_nil, List.append_nil] at h

theorem isPiped_psPipeline (psArgs keyword : String) (c : Context) (markers : List String) :
    ∃ t, (psPipeline psArgs keyword c markers).toList = psArgs.toList ++ t ∧
    IsPiped (psStages keyword c markers) t := by
  have hlast := ((isPiped_fieldStages 2).barred 1 (markers.map .drop)).barred 1 [.drop "grep"]
  have hmiddle :=
    ((hlast.barred 0 (c.excludes.map .drop)).space.barred 1
      (c.processCommand.toList.map .keep)).barred 0
    (c.processFilter.toList.map .keep)
  have hall := hmiddle.space.barred 1 [.keep (escapeDash keyword)]
  rw [← psStages_eq] at hall
  exact ⟨_, toList_psPipeline psArgs keyword c markers, hall⟩

theorem commands_psPipeline {psArgs keyword : String} {c : Context} {markers : List String}
    (hargs : '|' ∉ psArgs.toList) (hstages : ∀ s ∈ psStages keyword c markers, s.IsClean) :
    commands (psPipeline psArgs keyword c markers).toList =
      Chars.trim psArgs.toList :: (psStages keyword c markers).map fun s => s.text.toList := by
  obtain ⟨t, htext, ht⟩ := isPiped_psPipeline psArgs keyword c markers
  rw [htext]
  exact ht.commands hstages hargs

def pgrepStages (c : Context) (markers : List String) : List Stage :=
  wordStages [] (c.excludes ++ markers) 1

theorem pgrepStages_eq (c : Context) (markers : List String) :
    pgrepStages c markers = c.excludes.map .drop ++ (markers.map .drop ++ [.field 1, .join]) := by
  simp [pgrepStages, wordStages]

theorem toList_pgrepPipeline (name : String) (c : Context) (markers : List String) :
    (pgrepPipeline name c markers).toList =
      "-l ".toList ++ name.toList ++ ' ' :: (barred 0 (c.excludes.map .drop) ++
        (barred 1 (markers.map .drop) ++ barred 1 [.field 1, .join])) := by
  have hfield := toList_fieldStages 1
  rw [show Decimal.ofNat 1 = "1" from rfl] at hfield
  unfold pgrepPipeline
  simp only [String.toList_append, toList_excludeStages, toList_markerStages, hfield,
    List.append_assoc]
  rfl

theorem isPiped_pgrepPipeline (name : String) (c : Context) (markers : List String) :
    ∃ t, (pgrepPipeline name c markers).toList = "-l ".toList ++ name.toList ++ t ∧
    IsPiped (pgrepStages c markers) t := by
  have hall :=
    (((isPiped_fieldStages 1).barred 1 (markers.map .drop)).barred 0 (c.excludes.map .drop)).space
  rw [← pgrepStages_eq] at hall
  exact ⟨_, toList_pgrepPipeline name c markers, hall⟩

theorem commands_pgrepPipeline {name : String} {c : Context} {markers : List String}
    (hname : '|' ∉ name.toList) (hstages : ∀ s ∈ pgrepStages c markers, s.IsClean) :
    commands (pgrepPipeline name c markers).toList =
      Chars.trim ("-l ".toList ++ name.toList) :: (pgrepStages c markers).map fun s =>
        s.text.toList := by
  obtain ⟨t, htext, ht⟩ := isPiped_pgrepPipeline name c markers
  rw [htext]
  exact ht.commands hstages (by simpa using hname)

theorem bar_notMem_psArgs (p : Platform) : '|' ∉ p.psArgs.toList := by
  unfold Platform.psArgs
  split
  · decide
  · decide

variable {isWordChar : Char → Bool}

/-- What a pipeline prints when its first command prints these lines; none if one of the commands
after it is no stage. -/
def output? (isWordChar : Char → Bool) (pipeline : String) (lines : List (List Char)) :
    Option String :=
  match commands pipeline.toList with
  | [] => none
  | _ :: ts =>
    (ts.mapM Stage.ofText?).map fun stages =>
      String.ofList (stages.foldl (Stage.run isWordChar) lines).flatten

theorem mapM_ofText?_text (stages : List Stage) :
    (stages.map fun s => s.text.toList).mapM Stage.ofText? = some stages := by
  induction stages with
  | nil => rfl
  | cons s stages ih => simp [Stage.ofText?_text, ih]

theorem foldl_run_of_filters (isWordChar : Char → Bool) (stage : String → Stage)
    {test : String → List Char → Bool}
    (hstage : ∀ w lines, Stage.run isWordChar lines (stage w) = lines.filter (test w))
    (words : List String) (lines : List (List Char)) :
    (words.map stage).foldl (Stage.run isWordChar) lines =
      lines.filter fun l => words.all fun w => test w l := by
  induction words generalizing lines with
  | nil => exact (List.filter_eq_self.mpr (by simp)).symm
  | cons w words ih =>
    rw [List.map_cons, List.foldl_cons, hstage, ih, List.filter_filter]
    simp [Bool.and_comm]

theorem output?_of_commands {pipeline : String} {first : List Char}
    {kept dropped : List String} {n : Nat}
    (h : commands pipeline.toList = first :: (wordStages kept dropped n).map fun s => s.text.toList)
    (lines : List (List Char)) :
    output? isWordChar pipeline lines =
      some (String.ofList
        (((lines.filter fun l => (kept.all fun w => Chars.occursIn w.toList l) &&
            dropped.all fun w => !Chars.occursAsWord isWordChar w.toList l).map fun l =>
          ((Chars.words l)[n - 1]?).getD []).flatMap fun w => w ++ [' '])) := by
  have hkeeps := foldl_run_of_filters isWordChar .keep fun _ _ => rfl
  have hdrops := foldl_run_of_filters isWordChar .drop fun _ _ => rfl
  have hfilters : (wordStages kept dropped n).foldl (Stage.run isWordChar) lines =
      [.field n, .join].foldl (Stage.run isWordChar)
        (lines.filter fun l => (kept.all fun w => Chars.occursIn w.toList l) &&
          dropped.all fun w => !Chars.occursAsWord isWordChar w.toList l) := by
    rw [wordStages, List.foldl_append, List.foldl_append, hkeeps, hdrops, List.filter_filter]
    simp only [Bool.and_comm]
  unfold output?
  rw [h]
  simp only [mapM_ofText?_text, Option.map_some, hfilters]
  simp [Stage.run]

def passes (isWordChar : Char → Bool) (keyword : String) (c : Context) (markers : List String)
    (l : List Char) : Bool :=
  ((keptWords keyword c).all fun w => Chars.occursIn w.toList l) &&
    (droppedWords c markers).all fun w => !Chars.occursAsWord isWordChar w.toList l

/-- A pipeline of `ps` prints the second fields of the lines that pass it. -/
theorem output?_psPipeline {psArgs keyword : String} {c : Context} {markers : List String}
    (hargs : '|' ∉ psArgs.toList) (hstages : ∀ s ∈ psStages keyword c markers, s.IsClean)
    (lines : List (List Char)) :
    output? isWordChar (psPipeline psArgs keyword c markers) lines =
      some (String.ofList
        (((lines.filter (passes isWordChar keyword c markers)).map fun l =>
          ((Chars.words l)[1]?).getD []).flatMap fun w => w ++ [' '])) :=
  output?_of_commands (commands_psPipeline hargs hstages) lines

end HostReach.Lookup
