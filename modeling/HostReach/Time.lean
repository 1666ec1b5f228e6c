import HostReach.Binary64.Layout

/-!
Durations and readings of a clock, both as whole nanoseconds.
-/
namespace HostReach

def nanosPerSecond : Nat := 1000000000

instance : @NeZero Nat Zero.ofOfNat0 nanosPerSecond := ⟨by decide⟩

structure Duration where
  nanos : Nat
  inRange : nanos < Nat.pow 2 64 * nanosPerSecond
  deriving DecidableEq

namespace Duration

instance : LE Duration := ⟨fun a b => a.nanos ≤ b.nanos⟩
instance (a b : Duration) : Decidable (a ≤ b) := inferInstanceAs (Decidable (a.nanos ≤ b.nanos))
instance : Min Duration := ⟨fun a b => if a ≤ b then a else b⟩

def zero : Duration := ⟨0, by decide⟩

instance : Inhabited Duration := ⟨zero⟩

def upTo (d : Duration) (nanos : Nat) : Duration :=
  ⟨min d.nanos nanos, Nat.lt_of_le_of_lt (Nat.min_le_left d.nanos nanos) d.inRange⟩

def ofParts (seconds : UInt64) (nanos : Fin nanosPerSecond) : Duration where
  nanos := seconds.toNat * nanosPerSecond + nanos.val
  inRange := by
    have h := seconds.toNat_lt
    have hn := nanos.isLt
    calc seconds.toNat * nanosPerSecond + nanos.val
        < seconds.toNat * nanosPerSecond + nanosPerSecond := Nat.add_lt_add_left hn _
      _ = (seconds.toNat + 1) * nanosPerSecond := by rw [Nat.add_mul, Nat.one_mul]
      _ ≤ Nat.pow 2 64 * nanosPerSecond := Nat.mul_le_mul_right _ h

def ofSeconds (seconds : UInt64) : Duration := ofParts seconds ⟨0, by decide⟩

def seconds (d : Duration) : Nat := d.nanos / nanosPerSecond
def subsecond (d : Duration) : Nat := d.nanos % nanosPerSecond

/-- Seconds as binary64: whole seconds and the fraction are rounded, and then their sum. -/
def toBinary64 (d : Duration) : Binary64 :=
  let sum := do
    let whole ← Binary64.ofNat false d.seconds
    let part ← Binary64.ofRatio false d.subsecond nanosPerSecond
    whole.addMagnitudes part
  sum.getD (.zero false)

/-- Seconds are always written without an exponent, whole ones without a point. -/
def secondsLayout : Binary64.Layout where
  isPositional _ := true
  keepsFraction := false
  signsExponent := false
  tieGoesUp := true

def secondsText (d : Duration) : String := String.ofList (secondsLayout.write d.toBinary64)

end Duration

/-- How far from its fixed moment a clock can be read; whole seconds are a signed number of 64
bits. -/
def clockReach : Nat := Nat.pow 2 63 * nanosPerSecond

structure Instant where
  nanos : Int
  inRange : -(clockReach : Int) ≤ nanos ∧ nanos < clockReach
  deriving DecidableEq

namespace Instant

instance : LE Instant := ⟨fun a b => a.nanos ≤ b.nanos⟩
instance (a b : Instant) : Decidable (a ≤ b) := inferInstanceAs (Decidable (a.nanos ≤ b.nanos))
instance : Min Instant := ⟨fun a b => if a ≤ b then a else b⟩

def start : Instant := ⟨0, by decide⟩

instance : Inhabited Instant := ⟨start⟩

def add? (t : Instant) (d : Duration) : Option Instant :=
  if h : t.nanos + d.nanos < clockReach then some
    ⟨t.nanos + d.nanos, by have ht := t.inRange; omega, h⟩ else none

def last : Instant := ⟨clockReach - 1, by decide⟩

def after (t : Instant) (d : Duration) : Instant := (t.add? d).getD last

/-- The span from an earlier moment to this one, zero if that one is not earlier. -/
def since (t earlier : Instant) : Duration where
  nanos := (t.nanos - earlier.nanos).toNat
  inRange := by
    have hlast := t.inRange.2
    have hfirst := earlier.inRange.1
    simp only [clockReach, nanosPerSecond, Nat.pow_eq] at *
    omega

end Instant

end HostReach
