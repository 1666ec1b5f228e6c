import HostReach.Pid
import HostReach.Proofs.Text.Decimal

/-!
Asking whether a process is alive. At most one signal is sent, and it goes to the number that the
text stands for: a positive one, so that it is never taken for a group of processes, and the same
one, so that no other process is asked.
-/
namespace HostReach.Pid

variable {text : String} {pid : UInt32} {target : Int32}

theorem ofText_eq_ok_iff : ofText text = .ok pid ↔
    Decimal.IsNumeral (Chars.trim text.toList) pid.toNat := by
  have hlimit : 0 < Nat.pow 2 32 := by decide
  unfold ofText
  constructor
  · intro h
    cases hread : Decimal.readBelow (Nat.pow 2 32) (Chars.trim text.toList) with
    | error fault =>
      rw [hread] at h
      cases h
    | ok n =>
      obtain ⟨hnumeral, hlt⟩ := (Decimal.readBelow_eq_ok_iff hlimit).mp hread
      rw [hread] at h
      cases h
      rwa [UInt32.toNat_ofNat_of_lt' hlt]
  · intro h
    rw [(Decimal.readBelow_eq_ok_iff hlimit).mpr ⟨h, pid.toNat_lt⟩]
    exact congrArg Except.ok UInt32.ofNat_toNat

theorem exists_ofText {n : Nat} (h : Decimal.IsNumeral (Chars.trim text.toList) n)
    (hn : n ≤ 4294967295) :
    ∃ pid, ofText text = .ok pid ∧ pid.toNat = n := by
  have hvalue : (UInt32.ofNat n).toNat = n := UInt32.toNat_ofNat_of_lt' (Nat.lt_succ_of_le hn)
  refine ⟨UInt32.ofNat n, ?_, hvalue⟩
  rw [ofText_eq_ok_iff, hvalue]
  exact h

theorem exists_target (h : pid.toNat ≤ 2147483647) :
    ∃ target, target? pid = some target ∧ target.toInt = pid.toNat := by
  have hhalf : 2 * pid.toBitVec.toNat < 2 ^ 32 := by
    rw [UInt32.toNat_toBitVec]
    omega
  refine ⟨pid.toInt32, if_pos (Nat.lt_succ_of_le h), ?_⟩
  exact BitVec.toInt_eq_toNat_of_lt hhalf

theorem target?_eq_none (h : 2147483647 < pid.toNat) : target? pid = none :=
  if_neg (Nat.not_lt.mpr h)

section Signals

variable {m : Type → Type} [Monad m] (ask : Int32 → m Probe)

theorem isAlive_of_fault {fault : Decimal.Fault} (h : ofText text = .error fault) :
    isAlive ask text = pure (.error (.invalidPid text fault)) := by
  unfold isAlive
  rw [h]

theorem isAlive_of_no_target (h : ofText text = .ok pid)
    (hpid : pid.toNat = 0 ∨ 2147483647 < pid.toNat) :
    isAlive ask text = pure (.ok false) := by
  unfold isAlive
  simp only [h]
  rcases hpid with hzero | hlarge
  · have hpid : pid = 0 := UInt32.toNat_inj.mp hzero
    rw [if_pos (beq_iff_eq.mpr hpid)]
  · rw [target?_eq_none hlarge]
    exact ite_self _

theorem isAlive_of_target (h : ofText text = .ok pid) (hpos : 1 ≤ pid.toNat)
    (htarget : target? pid = some target) :
    isAlive ask text = (do return (← ask target).alive) := by
  have hne : ¬(pid == 0) = true := by
    rw [beq_iff_eq]
    rintro rfl
    cases hpos
  unfold isAlive
  simp only [h, htarget]
  rw [if_neg hne]

end Signals

/-- Whether `answer` is what the answer to the signal says: the process is alive if it was delivered
or refused for want of permission, and is not if there is no such process. Any other refusal is
handed on, with its number and text. -/
def Probe.Tells (answer : Except Error Bool) : Probe → Prop
  | .delivered => answer = .ok true
  | .refused number text =>
    (number = 3 → answer = .ok false) ∧ (number = 1 → answer = .ok true) ∧
      (number ≠ 3 → number ≠ 1 → answer = .error (.io (OsError.numbered number text)))

theorem Probe.tells_alive (p : Probe) : p.Tells p.alive := by
  cases p with
  | delivered => rfl
  | refused number text =>
    refine ⟨?_, ?_, ?_⟩
    · rintro rfl
      rfl
    · rintro rfl
      rfl
    · intro hfound hpermitted
      exact (if_neg hfound).trans (if_neg hpermitted)

theorem Probe.alive_ne_invalidPid (p : Probe) (fault : Decimal.Fault) :
    p.alive ≠ .error (.invalidPid text fault) := by
  cases p with
  | delivered => nofun
  | refused number _ =>
    unfold alive
    dsimp only
    split
    · nofun
    · split <;> nofun

/-- Answers signals as `ask` does, and keeps the numbers that were signalled, the first one
first. -/
def recorded {σ : Type} (ask : Int32 → StateM σ Probe)
    (target : Int32) : StateM (σ × List Int32) Probe :=
  modifyGet fun (s, signalled) =>
    let (p, after) := (ask target).run s
    (p, after, signalled ++ [target])

section Runs

variable {σ : Type} (ask : Int32 → StateM σ Probe) (before : σ)

theorem run_isAlive_of_fault {fault : Decimal.Fault} (h : ofText text = .error fault) :
    (isAlive (recorded ask) text).run (before, []) =
      (.error (.invalidPid text fault), before, []) := by
  rw [isAlive_of_fault (recorded ask) h]
  rfl

theorem run_isAlive_of_no_target (h : ofText text = .ok pid)
    (hpid : pid.toNat = 0 ∨ 2147483647 < pid.toNat) :
    (isAlive (recorded ask) text).run (before, []) = (.ok false, before, []) := by
  rw [isAlive_of_no_target (recorded ask) h hpid]
  rfl

theorem run_isAlive_of_target (h : ofText text = .ok pid) (hpos : 1 ≤ pid.toNat)
    (hle : pid.toNat ≤ 2147483647) :
    ∃ target : Int32, target.toInt = pid.toNat ∧ (isAlive (recorded ask) text).run (before, []) =
      (((ask target).run before).1.alive, ((ask target).run before).2, [target]) := by
  obtain ⟨target, htarget, hvalue⟩ := exists_target hle
  refine ⟨target, hvalue, ?_⟩
  rw [isAlive_of_target (recorded ask) h hpos htarget]
  rfl

theorem not_refused_of_ofText (h : ofText text = .ok pid) :
    ¬∃ fault, ((isAlive (recorded ask) text).run (before, [])).1 =
      .error (.invalidPid text fault) := by
  rintro ⟨fault, hfault⟩
  by_cases hrange : 1 ≤ pid.toNat ∧ pid.toNat ≤ 2147483647
  · obtain ⟨target, -, hrun⟩ := run_isAlive_of_target ask before h hrange.1 hrange.2
    rw [hrun] at hfault
    exact Probe.alive_ne_invalidPid _ fault hfault
  · rw [run_isAlive_of_no_target ask before h (by omega)] at hfault
    cases hfault

end Runs

/-- A text is refused, as it was given, exactly if it is no numeral that fits 32 bits, white space
around it aside, and then nothing is signalled. Neither is anything signalled for zero and for the
numbers beyond the signed range, which are no processes. For a number from 1 to 2147483647 one
signal is sent to that number, and its answer settles the question. -/
theorem signals_one_process {σ : Type} (ask : Int32 → StateM σ Probe) (text : String) (before : σ) :
    let numeral := Chars.trim text.toList
    let asked := (isAlive (recorded ask) text).run (before, [])
    ((∃ fault, asked.1 = .error (.invalidPid text fault)) ↔
      ¬∃ n ≤ 4294967295, Decimal.IsNumeral numeral n) ∧
    ((∃ fault, asked.1 = .error (.invalidPid text fault)) → asked.2 = (before, [])) ∧
    ∀ n ≤ 4294967295, Decimal.IsNumeral numeral n →
      (n = 0 ∨ 2147483647 < n → asked = (.ok false, before, [])) ∧
      (1 ≤ n → n ≤ 2147483647 → ∃ target : Int32, target.toInt = n ∧
        asked.2 = (((ask target).run before).2, [target]) ∧
        ((ask target).run before).1.Tells asked.1) := by
  intro numeral asked
  cases hread : ofText text with
  | error fault =>
    have hasked : asked = (.error (.invalidPid text fault), before, []) :=
      run_isAlive_of_fault ask before hread
    have hnone : ¬∃ n ≤ 4294967295, Decimal.IsNumeral numeral n := by
      rintro ⟨n, hn, hnumeral⟩
      obtain ⟨pid, hpid, -⟩ := exists_ofText hnumeral hn
      rw [hread] at hpid
      cases hpid
    rw [hasked]
    exact ⟨iff_of_true ⟨fault, rfl⟩ hnone, fun _ => rfl,
      fun n hn hnumeral => absurd ⟨n, hn, hnumeral⟩ hnone⟩
  | ok pid =>
    have hle : pid.toNat ≤ 4294967295 := Nat.le_of_lt_succ pid.toNat_lt
    have hsome : ∃ n ≤ 4294967295, Decimal.IsNumeral numeral n :=
      ⟨pid.toNat, hle, ofText_eq_ok_iff.mp hread⟩
    have haccepted := not_refused_of_ofText ask before hread
    refine ⟨iff_of_false haccepted (not_not_intro hsome), fun h => absurd h haccepted, ?_⟩
    intro n hn hnumeral
    -- The text is the numeral of one number only, since it is read as one id.
    obtain ⟨other, hother, rfl⟩ := exists_ofText hnumeral hn
    rw [hread] at hother
    cases hother
    constructor
    · exact run_isAlive_of_no_target ask before hread
    · intro hpos hsigned
      obtain ⟨target, hvalue, hrun⟩ := run_isAlive_of_target ask before hread hpos hsigned
      have hasked : asked =
          (((ask target).run before).1.alive, ((ask target).run before).2, [target]) := hrun
      rw [hasked]
      exact ⟨target, hvalue, rfl, Probe.tells_alive _⟩

/-- The greatest number that is signalled, written with a sign and zeros before it; the number after
it; and one that does not fit. -/
theorem signals_one_process_at_limits :
    let ask : Int32 → StateM Nat Probe := fun target => modifyGet fun count =>
      (if target = 2147483647 then .refused 1 "Operation not permitted"
        else .refused 22 "Invalid argument", count + 1)
    (isAlive (recorded ask) "\u3000+002147483647\n").run (5, []) = (.ok true, 6, [2147483647]) ∧
      (isAlive (recorded ask) "2147483648").run (5, []) = (.ok false, 5, []) ∧
      ∃ fault, ((isAlive (recorded ask) " 4294967296").run (5, [])).1 =
        .error (.invalidPid " 4294967296" fault) := by
  intro ask
  refine ⟨?_, ?_, ?_⟩
  · obtain ⟨-, -, hnumerals⟩ := signals_one_process ask "\u3000+002147483647\n" 5
    obtain ⟨target, hvalue, hafter, htells⟩ := (hnumerals 2147483647 (by decide)
      (.inr ⟨"002147483647".toList, by decide, by decide, List.all_eq_true.mp rfl, by decide⟩)).2
        (by decide) (by decide)
    obtain rfl : target = 2147483647 := Int32.toInt_inj.mp hvalue
    exact Prod.ext (htells.2.1 rfl) hafter
  · obtain ⟨-, -, hnumerals⟩ := signals_one_process ask "2147483648" 5
    exact (hnumerals 2147483648 (by decide)
      (.inl ⟨by decide, List.all_eq_true.mp rfl, by decide⟩)).1 (.inr (by decide))
  · obtain ⟨hrefused, -, -⟩ := signals_one_process ask " 4294967296" 5
    apply hrefused.mpr
    rintro ⟨n, hn, hnumeral⟩
    have hread : Decimal.readBelow 4294967296 (Chars.trim " 4294967296".toList) =
        .error .tooLarge := by decide
    rw [(Decimal.readBelow_eq_ok_iff (by decide)).mpr ⟨hnumeral, Nat.lt_succ_of_le hn⟩] at hread
    cases hread

end HostReach.Pid
