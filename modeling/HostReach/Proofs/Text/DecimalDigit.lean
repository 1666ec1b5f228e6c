import HostReach.Text.Blank
import HostReach.Text.DecimalDigit

/-!
No digit, of whatever script, is white space.
-/
namespace HostReach

def blankCodes : List Nat :=
  [9, 10, 11, 12, 13, 0x20, 0x85, 0xA0, 0x1680, 0x2000, 0x2001, 0x2002, 0x2003, 0x2004, 0x2005,
    0x2006, 0x2007, 0x2008, 0x2009, 0x200A, 0x2028, 0x2029, 0x202F, 0x205F, 0x3000]

theorem mem_blankCodes {c : Char} (h : isBlank c = true) : c.toNat ∈ blankCodes := by
  simp [isBlank] at h
  simp [blankCodes]
  omega

theorem isBlank_of_isDecimalDigit {c : Char} (h : isDecimalDigit c = true) : isBlank c = false := by
  apply Bool.eq_false_iff.mpr
  intro hblank
  have hnone : ∀ n ∈ blankCodes, digitZeros.any (fun z => z ≤ n && n < z + 10) = false := by
    decide +kernel
  exact Bool.eq_false_iff.mp (hnone _ (mem_blankCodes hblank)) h

end HostReach
