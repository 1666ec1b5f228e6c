import HostReach.Lookup.Query
import HostReach.Proofs.Context.Excludes
import HostReach.Proofs.Lookup.Stage

/-!
The lines of a process table. Words of the rules that do not occur in its other columns occur in a
line where they occur in the command line.
-/
namespace HostReach.Lookup

def IsPlain (w : String) : Prop := w.toList ≠ [] ∧ ∀ c ∈ w.toList, c.isAlphanum = true

theorem toNat_of_isAlpha {c : Char} (h : c.isAlpha = true) :
    (65 ≤ c.toNat ∧ c.toNat ≤ 90) ∨ (97 ≤ c.toNat ∧ c.toNat ≤ 122) := by
  have hbound {a d : UInt32} (h : (decide (a ≤ d)) = true) : a.toNat ≤ d.toNat :=
    UInt32.le_iff_toNat_le.mp (of_decide_eq_true h)
  rcases (Bool.or_eq_true _ _).mp h with hupper | hlower
  · have h := of_decide_eq_true hupper
    exact .inl ⟨hbound (decide_eq_true h.1), hbound (decide_eq_true h.2)⟩
  · have h := (Bool.and_eq_true _ _).mp hlower
    exact .inr ⟨hbound h.1, hbound h.2⟩

theorem isBlank_of_isAlphanum {c : Char} (h : c.isAlphanum = true) : isBlank c = false := by
  have hrange : ((65 ≤ c.toNat ∧ c.toNat ≤ 90) ∨ (97 ≤ c.toNat ∧ c.toNat ≤ 122)) ∨
      (48 ≤ c.toNat ∧ c.toNat ≤ 57) :=
    ((Bool.or_eq_true _ _).mp h).imp toNat_of_isAlpha Char.isDigit_iff_toNat.mp
  apply Bool.eq_false_iff.mpr
  intro hblank
  simp [isBlank] at hblank
  omega

theorem isDigit_of_isAlpha {c : Char} (h : c.isAlpha = true) : c.isDigit = false := by
  have hrange := toNat_of_isAlpha h
  apply Bool.eq_false_iff.mpr
  intro hdigit
  have hbounds : 48 ≤ c.toNat ∧ c.toNat ≤ 57 := Char.isDigit_iff_toNat.mp hdigit
  omega

section Plain

variable {w : String} (hw : IsPlain w)

include hw

theorem IsPlain.notMem {c : Char} (hc : c.isAlphanum = false) : c ∉ w.toList := by
  intro h
  rw [hw.2 c h] at hc
  cases hc

theorem IsPlain.trimRight : Chars.trimRight w.toList = w.toList := by
  rcases List.eq_nil_or_concat w.toList with hnil | ⟨t, c, ht⟩
  · exact absurd hnil hw.1
  · have hc : c ∈ w.toList := by simp [ht]
    rw [ht, List.concat_eq_append]
    exact Chars.trimRight_append_singleton t (isBlank_of_isAlphanum (hw.2 c hc))

theorem IsPlain.trim : Text.trim w = w := by
  have hleft : Chars.trimLeft w.toList = w.toList := by
    cases h : w.toList with
    | nil => rfl
    | cons c t =>
      have hc : c ∈ w.toList := by simp [h]
      exact Chars.trimLeft_cons (isBlank_of_isAlphanum (hw.2 c hc)) t
  unfold Text.trim Chars.trim
  rw [hleft, hw.trimRight, String.ofList_toList]

theorem IsPlain.escapeDash : escapeDash w = w := by
  unfold Lookup.escapeDash
  rw [if_neg]
  intro hdash
  rw [beq_iff_eq] at hdash
  exact hw.notMem (show '-'.isAlphanum = false by decide) (List.mem_of_head? hdash)

end Plain

theorem cleanNames_of_plain {ws : List String} (h : ∀ w ∈ ws, IsPlain w) :
    Context.cleanNames ws = ws :=
  Context.cleanNames_of_isCleanName fun w hw => ⟨(h w hw).trim, by simpa using (h w hw).1⟩

theorem pidText_inj {a b : UInt32} : pidText a = pidText b ↔ a = b := by
  constructor
  · intro h
    have hdigits : Decimal.digits a.toNat = Decimal.digits b.toNat := String.ofList_injective h
    have hnat := congrArg Decimal.toNat hdigits
    rw [Decimal.toNat_digits, Decimal.toNat_digits] at hnat
    exact UInt32.toNat_inj.mp hnat
  · rintro rfl
    rfl

theorem toList_pidText (pid : UInt32) : (pidText pid).toList = Decimal.digits pid.toNat := by
  unfold pidText Decimal.ofNat
  rw [String.toList_ofList]

theorem isPlain_pidText (pid : UInt32) : IsPlain (pidText pid) := by
  unfold IsPlain
  rw [toList_pidText]
  refine ⟨Nat.toDigits_ne_nil, ?_⟩
  intro c hc
  have hdigit : c.isDigit = true := Decimal.isDigit_of_mem_digits hc
  simp [Char.isAlphanum, hdigit]

theorem notBlank_pidText (pid : UInt32) : ∀ c ∈ (pidText pid).toList, isBlank c = false :=
  fun c hc => isBlank_of_isAlphanum ((isPlain_pidText pid).2 c hc)

/-- What is read from a text whose words are process ids: all of them in order, but for the caller's
own. -/
theorem pidsOfColumn_of_words {text : String} {pids : List UInt32}
    (h : Chars.words text.toList = pids.map fun pid => (pidText pid).toList) (ownPid : UInt32) :
    pidsOfColumn text ownPid = (pids.filter fun pid => pid != ownPid).map pidText := by
  have hwords : Text.words text = pids.map pidText := by
    rw [Text.words, h, List.map_map]
    simp only [Function.comp_def, String.ofList_toList]
  have hown (pid : UInt32) : (pidText pid != pidText ownPid) = (pid != ownPid) := by
    rw [Bool.eq_iff_iff, bne_iff_ne, bne_iff_ne, Ne, pidText_inj]
  rw [pidsOfColumn, hwords, List.filter_map]
  simp only [Function.comp_def, hown]

theorem pidsOfColumn_flatMap (pids : List UInt32) (ownPid : UInt32) :
    pidsOfColumn
      (String.ofList ((pids.map fun pid => (pidText pid).toList).flatMap fun w => w ++ [' ']))
        ownPid =
      (pids.filter fun pid => pid != ownPid).map pidText := by
  apply pidsOfColumn_of_words
  rw [String.toList_ofList]
  apply Chars.words_flatMap_space
  · intro w hw
    obtain ⟨pid, -, rfl⟩ := List.mem_map.mp hw
    exact (isPlain_pidText pid).1
  · intro w hw
    obtain ⟨pid, -, rfl⟩ := List.mem_map.mp hw
    exact notBlank_pidText pid

theorem grep_notIn_pidText (pid : UInt32) :
    Chars.occursIn "grep".toList (pidText pid).toList = false := by
  apply Chars.occursIn_eq_false_of_mem (c := 'g') (by decide)
  rw [toList_pidText]
  intro h
  have hdigit := Decimal.isDigit_of_mem_digits h
  revert hdigit
  decide

structure Row extends RunningProcess where
  user : String
  ppid : UInt32

namespace Row

def line (r : Row) : List Char :=
  r.user.toList ++ ' ' :: ((pidText r.pid).toList ++ ' ' ::
    ((pidText r.ppid).toList ++ ' ' :: r.commandLine.toList))

/-- The user is one word, and none of these words occurs in a column before the command line. -/
structure Fits (words : List String) (r : Row) : Prop where
  user_ne_nil : r.user.toList ≠ []
  user_notBlank : ∀ c ∈ r.user.toList, isBlank c = false
  absent : ∀ w ∈ words, Text.contains r.user w = false ∧ Text.contains (pidText r.pid) w = false ∧
    Text.contains (pidText r.ppid) w = false

variable {isWordChar : Char → Bool} {r : Row}

theorem occursAsWord_line (hspace : isWordChar ' ' = false) {w : List Char} (hw : w ≠ [])
    (hword : ' ' ∉ w) :
    Chars.occursAsWord isWordChar w r.line =
      (Chars.occursAsWord isWordChar w r.user.toList ||
        (Chars.occursAsWord isWordChar w (pidText r.pid).toList ||
          (Chars.occursAsWord isWordChar w (pidText r.ppid).toList ||
            Chars.occursAsWord isWordChar w r.commandLine.toList))) := by
  unfold line
  rw [Chars.occursAsWord_append_cons hw hword hspace,
    Chars.occursAsWord_append_cons hw hword hspace, Chars.occursAsWord_append_cons hw hword hspace]

variable {words : List String} (hr : r.Fits words) {w : String} (hmem : w ∈ words) (hw : IsPlain w)

include hr hmem hw

theorem Fits.occursAsWord_line (hspace : isWordChar ' ' = false) :
    Chars.occursAsWord isWordChar w.toList r.line =
      Chars.occursAsWord isWordChar w.toList r.commandLine.toList := by
  obtain ⟨huser, hpid, hppid⟩ := hr.absent w hmem
  have hword : ' ' ∉ w.toList := hw.notMem (by decide)
  rw [Row.occursAsWord_line hspace hw.1 hword, Chars.occursAsWord_eq_false huser,
    Chars.occursAsWord_eq_false hpid, Chars.occursAsWord_eq_false hppid]
  rfl

theorem Fits.contains_line : Chars.occursIn w.toList r.line = Text.contains r.commandLine w := by
  unfold Text.contains
  simp only [Chars.occursIn_eq_occursAsWord]
  exact hr.occursAsWord_line hmem hw rfl

omit hmem hw

theorem Fits.words_line :
    Chars.words r.line = r.user.toList :: (pidText r.pid).toList :: (pidText r.ppid).toList ::
      Chars.words r.commandLine.toList := by
  unfold line
  rw [Chars.words_append_cons hr.user_ne_nil hr.user_notBlank (by decide),
    Chars.words_append_cons (isPlain_pidText r.pid).1 (notBlank_pidText r.pid) (by decide),
    Chars.words_append_cons (isPlain_pidText r.ppid).1 (notBlank_pidText r.ppid) (by decide)]

end Row

end HostReach.Lookup
