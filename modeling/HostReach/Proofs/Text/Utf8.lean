import HostReach.Text.Utf8

/-!
The bytes of a text, read strictly, give the text: each character is announced by its first byte,
and the bytes that follow are in the ranges that it announces.
-/
namespace HostReach.Utf8

theorem lead?_one {b : Nat} (h : b < 0x80) : lead? b = some ⟨0, 0, 0, b⟩ := by simp [lead?, h]

theorem lead?_two {b : Nat} (hlow : 0xC2 ≤ b) (hhigh : b ≤ 0xDF) :
    lead? b = some ⟨1, 0x80, 0xBF, b - 0xC0⟩ := by
  have h : ¬b < 0x80 := by omega
  simp [lead?, h, hlow, hhigh]

/-- The byte after the first of three is in a range that leaves out what two bytes can say, and
surrogates. -/
theorem exists_lead_three {b : Nat} (hlow : 0xE0 ≤ b) (hhigh : b ≤ 0xEF) : ∃ low high,
    lead? b = some ⟨2, low, high, b - 0xE0⟩ ∧ (low ≤ 0x80 ∨ b = 0xE0 ∧ low ≤ 0xA0) ∧
      (0xBF ≤ high ∨ b = 0xED ∧ 0x9F ≤ high) := by
  have h : ¬b < 0x80 := by omega
  have htwo : ¬b ≤ 0xDF := by omega
  by_cases hfirst : b = 0xE0
  · subst hfirst
    exact ⟨_, _, rfl, by omega, by omega⟩
  · by_cases hsurrogate : b = 0xED
    · subst hsurrogate
      exact ⟨_, _, rfl, by omega, by omega⟩
    · have hlow' : 0xE1 ≤ b := by omega
      refine ⟨0x80, 0xBF, ?_, by omega, by omega⟩
      simp [lead?, h, htwo, hfirst, hsurrogate, hlow', hhigh]

theorem exists_lead_four {b : Nat} (hlow : 0xF0 ≤ b) (hhigh : b ≤ 0xF4) : ∃ low high,
    lead? b = some ⟨3, low, high, b - 0xF0⟩ ∧ (low ≤ 0x80 ∨ b = 0xF0 ∧ low ≤ 0x90) ∧
      (0xBF ≤ high ∨ b = 0xF4 ∧ 0x8F ≤ high) := by
  obtain rfl | rfl | rfl | rfl | rfl : b = 0xF0 ∨ b = 0xF1 ∨ b = 0xF2 ∨ b = 0xF3 ∨
      b = 0xF4 := by omega
  all_goals exact ⟨_, _, rfl, by omega, by omega⟩

variable {b : UInt8} {bytes : List UInt8} {low high bits n : Nat}

theorem pieces_start (h : lead? b.toNat = some ⟨n + 1, low, high, bits⟩) :
    pieces none (b :: bytes) = pieces (some ⟨n, low, high, bits⟩) bytes := by
  simp [pieces, step, start, h]

theorem pieces_more (hlow : low ≤ b.toNat) (hhigh : b.toNat ≤ high) :
    pieces (some ⟨n + 1, low, high, bits⟩) (b :: bytes) =
      pieces (some ⟨n, 0x80, 0xBF, bits * 64 + (b.toNat - 0x80)⟩) bytes := by
  simp [pieces, step, hlow, hhigh]

theorem pieces_last (hlow : low ≤ b.toNat) (hhigh : b.toNat ≤ high) :
    pieces (some ⟨0, low, high, bits⟩) (b :: bytes) =
      .char (Char.ofNat (bits * 64 + (b.toNat - 0x80))) :: pieces none bytes := by
  simp [pieces, step, hlow, hhigh]

theorem toNat_ofNat_of_lt {v : Nat} (h : v < 256) : (UInt8.ofNat v).toNat = v := by
  rw [UInt8.toNat_ofNat', Nat.mod_eq_of_lt h]

theorem pieces_encodeChar (c : Char) (bytes : List UInt8) :
    pieces none (String.utf8EncodeChar c ++ bytes) = .char c :: pieces none bytes := by
  have hrange : c.val.toNat < 0xD800 ∨ 0xDFFF < c.val.toNat ∧ c.val.toNat < 0x110000 := c.valid
  have hc : Char.ofNat c.val.toNat = c := Char.ofNat_toNat c
  unfold String.utf8EncodeChar
  generalize c.val.toNat = v at hrange hc ⊢
  simp only
  split
  · next hone =>
    have hb : (UInt8.ofNat v).toNat = v := toNat_ofNat_of_lt (by omega)
    simp [pieces, step, start, hb, lead?_one (show v < 0x80 by omega), hc]
  · split
    · next hone htwo =>
      have hfirst := toNat_ofNat_of_lt (show v / 64 % 32 + 192 < 256 by omega)
      have hlast := toNat_ofNat_of_lt (show v % 64 + 128 < 256 by omega)
      have hlead := lead?_two (b := v / 64 % 32 + 192) (by omega) (by omega)
      have hbits : (v / 64 % 32 + 192 - 192) * 64 + (v % 64 + 128 - 128) = v := by omega
      rw [← hfirst] at hlead
      rw [List.cons_append, pieces_start hlead, List.cons_append, pieces_last (by omega) (by omega),
        hfirst, hlast, hbits, hc, List.nil_append]
    · split
      · next hone htwo hthree =>
        have hfirst := toNat_ofNat_of_lt (show v / 4096 % 16 + 224 < 256 by omega)
        have hsecond := toNat_ofNat_of_lt (show v / 64 % 64 + 128 < 256 by omega)
        have hlast := toNat_ofNat_of_lt (show v % 64 + 128 < 256 by omega)
        obtain ⟨low, high, hlead, hlow, hhigh⟩ :=
          exists_lead_three (b := v / 4096 % 16 + 224) (by omega) (by omega)
        have hbits : ((v / 4096 % 16 + 224 - 224) * 64 + (v / 64 % 64 + 128 - 128)) * 64 +
            (v % 64 + 128 - 128) =
            v := by omega
        rw [← hfirst] at hlead
        rw [List.cons_append, pieces_start hlead, List.cons_append,
          pieces_more (by omega) (by omega), List.cons_append, pieces_last (by omega) (by omega),
          hfirst, hsecond, hlast, hbits, hc, List.nil_append]
      · next hone htwo hthree =>
        have hfirst := toNat_ofNat_of_lt (show v / 262144 % 8 + 240 < 256 by omega)
        have hsecond := toNat_ofNat_of_lt (show v / 4096 % 64 + 128 < 256 by omega)
        have hthird := toNat_ofNat_of_lt (show v / 64 % 64 + 128 < 256 by omega)
        have hlast := toNat_ofNat_of_lt (show v % 64 + 128 < 256 by omega)
        obtain ⟨low, high, hlead, hlow, hhigh⟩ :=
          exists_lead_four (b := v / 262144 % 8 + 240) (by omega) (by omega)
        have hbits : (((v / 262144 % 8 + 240 - 240) * 64 + (v / 4096 % 64 + 128 - 128)) * 64 +
            (v / 64 % 64 + 128 - 128)) * 64 + (v % 64 + 128 - 128) = v := by omega
        rw [← hfirst] at hlead
        rw [List.cons_append, pieces_start hlead, List.cons_append,
          pieces_more (by omega) (by omega), List.cons_append, pieces_more (by omega) (by omega),
          List.cons_append,
          pieces_last (by omega) (by omega), hfirst, hsecond, hthird, hlast, hbits, hc,
          List.nil_append]

theorem toList_loop (bytes : ByteArray) (i : Nat) (before : List UInt8) :
    ByteArray.toList.loop bytes i before = before.reverse ++ bytes.data.toList.drop i := by
  fun_induction ByteArray.toList.loop bytes i before with
  | case1 i before h ih =>
    have hi : i < bytes.data.toList.length := by simpa using h
    rw [ih, List.drop_eq_getElem_cons hi]
    simp [ByteArray.get!, h]
  | case2 i before h =>
    rw [List.drop_of_length_le (by simpa using h), List.append_nil]

theorem encode_ofList (cs : List Char) :
    encode (String.ofList cs) = cs.flatMap String.utf8EncodeChar := by
  unfold encode
  rw [String.toUTF8_eq_toByteArray, String.toByteArray_ofList]
  rw [ByteArray.toList, toList_loop]
  exact List.toList_data_toByteArray

theorem pieces_encode (cs : List Char) :
    pieces none (cs.flatMap String.utf8EncodeChar) = cs.map .char := by
  induction cs with
  | nil => rfl
  | cons c cs ih => rw [List.flatMap_cons, pieces_encodeChar, ih, List.map_cons]

theorem decode?_encode (s : String) : decode? (encode s) = some s := by
  have hchars (cs : List Char) : (cs.map Piece.char).mapM Piece.char? = some cs := by
    induction cs with
    | nil => rfl
    | cons c cs ih => simp [List.mapM_cons, Piece.char?, ih]
  rw [← String.ofList_toList (s := s), encode_ofList, decode?, pieces_encode, hchars,
    Option.map_some]

end HostReach.Utf8
