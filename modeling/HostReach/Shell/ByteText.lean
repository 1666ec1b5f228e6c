import HostReach.Text.Utf8

/-!
Text as a script sees it: bytes, each held as the character of that code.
-/
namespace HostReach.Shell.ByteText

def ofBytes (bs : List UInt8) : List Char := bs.map fun b => Char.ofNat b.toNat

def toBytes (t : List Char) : List UInt8 := t.map fun c => UInt8.ofNat c.toNat

def ofString (s : String) : List Char := ofBytes (Utf8.encode s)

/-- The characters that the bytes encode; what is no encoding is replaced. -/
def toString (t : List Char) : String := Utf8.decodeLossy (toBytes t)

theorem toBytes_ofBytes (bs : List UInt8) : toBytes (ofBytes bs) = bs := by
  have h : ∀ b : UInt8, UInt8.ofNat (Char.ofNat b.toNat).toNat = b := by
    intro b
    have hb : b.toNat < 256 := b.toNat_lt
    have hv : b.toNat.isValidChar := .inl (by omega)
    rw [Char.ofNat, dif_pos hv]
    exact UInt8.ofNat_toNat
  simp [toBytes, ofBytes, List.map_map, Function.comp_def, h]

end HostReach.Shell.ByteText
