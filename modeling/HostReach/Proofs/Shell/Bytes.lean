import HostReach.Proofs.Shell.Token
import HostReach.Proofs.Text.Utf8
import HostReach.Shell.ByteText

/-!
A shell is handed bytes. A character that is more than one byte has no meaning, and none of its
bytes has one, so the bytes of simple text are read as the bytes of its words.
-/
namespace HostReach.Shell

variable (commands : Reader Command) {c : Char} {t : List Char}

def bytesOf (c : Char) : List Char := ByteText.ofBytes (String.utf8EncodeChar c)

theorem ofString_ofList (t : List Char) :
    ByteText.ofString (String.ofList t) = t.flatMap bytesOf := by
  unfold ByteText.ofString ByteText.ofBytes
  rw [Utf8.encode_ofList, List.map_flatMap]
  rfl

theorem toString_ofString (u : String) : ByteText.toString (ByteText.ofString u) = u := by
  unfold ByteText.toString ByteText.ofString
  rw [ByteText.toBytes_ofBytes, ← String.ofList_toList (s := u), Utf8.encode_ofList,
    Utf8.decodeLossy, Utf8.pieces_encode, List.map_map]
  simp [Function.comp_def, Utf8.Piece.char?]

theorem bytesOf_of_lt (h : c.toNat < 128) : bytesOf c = [c] := by
  have hc : Char.ofNat c.toNat = c := Char.ofNat_toNat c
  have hbytes : String.utf8EncodeChar c = [UInt8.ofNat c.toNat] := by
    unfold String.utf8EncodeChar
    exact if_pos (Nat.le_of_lt_succ h)
  unfold bytesOf ByteText.ofBytes
  rw [hbytes, List.map_singleton, Utf8.toNat_ofNat_of_lt (by omega), hc]

theorem isLiteral_of_le (h : 128 ≤ c.toNat) : isLiteral c = true := by
  have hne (d : Char) (hd : d.toNat < 128) : c ≠ d := by
    rintro rfl
    omega
  simp [isLiteral, isSeparator, isOperatorChar, hne]

theorem isLiteral_of_mem_bytesOf (h : 128 ≤ c.toNat) {d : Char} (hd : d ∈ bytesOf c) :
    isLiteral d = true := by
  have hmore : ¬c.val.toNat ≤ 127 := Nat.not_le_of_lt h
  have hbyte (n : Nat) (hlow : 128 ≤ n) (hhigh : n < 256) : 128 ≤ (UInt8.ofNat n).toNat := by
    rwa [Utf8.toNat_ofNat_of_lt hhigh]
  have hbytes : ∀ b ∈ String.utf8EncodeChar c, 128 ≤ b.toNat := by
    unfold String.utf8EncodeChar
    simp only [hmore, if_false]
    split
    · simp only [List.forall_mem_cons]
      exact ⟨hbyte _ (by omega) (by omega), hbyte _ (by omega) (by omega), by simp⟩
    · split
      · simp only [List.forall_mem_cons]
        exact ⟨hbyte _ (by omega) (by omega), hbyte _ (by omega) (by omega),
          hbyte _ (by omega) (by omega), by simp⟩
      · simp only [List.forall_mem_cons]
        exact ⟨hbyte _ (by omega) (by omega), hbyte _ (by omega) (by omega),
          hbyte _ (by omega) (by omega), hbyte _ (by omega) (by omega), by simp⟩
  obtain ⟨b, hb, rfl⟩ := List.mem_map.mp hd
  apply isLiteral_of_le
  have hvalid : b.toNat.isValidChar := .inl (Nat.lt_trans b.toNat_lt (by decide))
  have hchar : (Char.ofNat b.toNat).toNat = b.toNat := by
    rw [Char.ofNat, dif_pos hvalid]
    rfl
  rw [hchar]
  exact hbytes b hb

theorem exists_bytesOf_eq (c : Char) : ∃ d ds, bytesOf c = d :: ds ∧
    (isLiteral c = true → isLiteral d = true) ∧ (c ≠ '\n' → d ≠ '\n') ∧
    ∀ e ∈ ds, isLiteral e = true := by
  by_cases h : c.toNat < 128
  · exact ⟨c, [], bytesOf_of_lt h, id, id, by simp⟩
  · have hliteral : ∀ e ∈ bytesOf c, isLiteral e = true := fun e he =>
      isLiteral_of_mem_bytesOf (Nat.le_of_not_lt h) he
    cases hbytes : bytesOf c with
    | nil => exact absurd (List.map_eq_nil_iff.mp hbytes) String.utf8EncodeChar_ne_nil
    | cons d ds =>
      rw [hbytes, List.forall_mem_cons] at hliteral
      refine ⟨d, ds, rfl, fun _ => hliteral.1, fun _ hd => ?_, hliteral.2⟩
      rw [hd] at hliteral
      cases hliteral.1

theorem bytesOf_gap (hc : c = ' ' ∨ c = '\t') : bytesOf c = [c] :=
  bytesOf_of_lt (by rcases hc with rfl | rfl <;> decide)

theorem bytesOf_backslash : bytesOf '\\' = ['\\'] := bytesOf_of_lt (by decide)

theorem splitFrom_append_literals {ds : List Char} (hds : ∀ d ∈ ds, isLiteral d = true)
    (front t : List Char) :
    splitFrom (some front) (ds ++ t) = splitFrom (some (ds.reverse ++ front)) t := by
  induction ds generalizing front with
  | nil => rfl
  | cons d ds ih =>
    rw [List.forall_mem_cons] at hds
    rw [List.cons_append, splitFrom_literal hds.1, Option.getD_some, ih hds.2, List.reverse_cons,
      List.append_assoc]
    rfl

theorem IsSimple.flatMap_bytesOf (ht : IsSimple t) : IsSimple (t.flatMap bytesOf) := by
  induction ht with
  | ended => exact .ended
  | @literal c hc t _ ih =>
    obtain ⟨d, ds, hbytes, hd, -, hds⟩ := exists_bytesOf_eq c
    rw [List.flatMap_cons, hbytes]
    exact .literal (hd hc) ((isSimple_of_forall fun e he => .inl (hds e he)).append ih)
  | @gap c hc t _ ih =>
    rw [List.flatMap_cons, bytesOf_gap hc]
    exact .gap hc ih
  | @quoted c hc t _ ih =>
    obtain ⟨d, ds, hbytes, -, hd, hds⟩ := exists_bytesOf_eq c
    rw [List.flatMap_cons, List.flatMap_cons, bytesOf_backslash, hbytes]
    exact .quoted (hd hc) ((isSimple_of_forall fun e he => .inl (hds e he)).append ih)

def heldBytes (front : List Char) : List Char := (front.reverse.flatMap bytesOf).reverse

theorem splitFrom_bytesOf {d : Char} {ds : List Char} (hbytes : bytesOf c = d :: ds)
    (hds : ∀ e ∈ ds, isLiteral e = true) (word : Option (List Char)) (t : List Char) :
    splitFrom (some (d :: (word.map heldBytes).getD [])) (ds ++ t) =
      splitFrom ((some (c :: word.getD [])).map heldBytes) t := by
  have hgetD : (word.map heldBytes).getD [] = heldBytes (word.getD []) := by cases word <;> rfl
  have hheld : heldBytes (c :: word.getD []) = ds.reverse ++ d :: heldBytes (word.getD []) := by
    simp [heldBytes, List.flatMap_append, hbytes]
  rw [splitFrom_append_literals hds, hgetD, Option.map_some, hheld]

/-- Splitting the bytes of a text gives the bytes of its words. -/
theorem splitFrom_flatMap_bytesOf (ht : IsSimple t) (word : Option (List Char)) :
    splitFrom (word.map heldBytes) (t.flatMap bytesOf) =
      (splitFrom word t).map (List.flatMap bytesOf) := by
  induction ht generalizing word with
  | ended => cases word <;> simp [splitFrom, heldBytes]
  | @literal c hc t _ ih =>
    obtain ⟨d, ds, hbytes, hd, -, hds⟩ := exists_bytesOf_eq c
    rw [List.flatMap_cons, hbytes, List.cons_append, splitFrom_literal (hd hc),
      splitFrom_bytesOf hbytes hds, ih, splitFrom_literal hc]
  | @gap c hc t _ ih =>
    rw [List.flatMap_cons, bytesOf_gap hc, List.singleton_append, splitFrom_gap hc,
      splitFrom_gap hc, List.map_append]
    congr 1
    · cases word <;> simp [heldBytes]
    · exact ih none
  | @quoted c hc t _ ih =>
    obtain ⟨d, ds, hbytes, -, -, hds⟩ := exists_bytesOf_eq c
    rw [List.flatMap_cons, List.flatMap_cons, bytesOf_backslash, hbytes, List.singleton_append,
      List.cons_append, splitFrom, splitFrom_bytesOf hbytes hds, ih, splitFrom]

/-- From the bytes of a text a shell reads words up to the end, none of which an expansion changes,
and these are their texts. -/
def ReadsAs (text : String) (words : List String) : Prop :=
  ∃ ws, ReadsWords commands (Source.ofText (ByteText.ofString text)) ws ∧ (∀ w ∈ ws, IsFixed w) ∧
    ws.map (fun w => ByteText.toString (plainText w)) = words

theorem readsAs_splitWords {text : String} (ht : IsSimple text.toList) :
    ReadsAs commands text (splitWords text) := by
  have hbytes : ByteText.ofString text = text.toList.flatMap bytesOf := by
    rw [← ofString_ofList, String.ofList_toList]
  unfold ReadsAs
  rw [hbytes]
  obtain ⟨ws, hws, hfixed, htexts⟩ :=
    exists_readsWords commands (s := Source.ofText (text.toList.flatMap bytesOf))
    ht.flatMap_bytesOf (Nat.lt_succ_self _)
  have hsplit : splitFrom none (text.toList.flatMap bytesOf) =
      (splitFrom none text.toList).map (List.flatMap bytesOf) :=
    splitFrom_flatMap_bytesOf ht none
  have htext (u : List Char) : ByteText.toString (u.flatMap bytesOf) = String.ofList u := by
    rw [← ofString_ofList, toString_ofString]
  refine ⟨ws, hws, hfixed, ?_⟩
  calc ws.map (fun w => ByteText.toString (plainText w))
    _ = (ws.map plainText).map ByteText.toString := by rw [List.map_map]; rfl
    _ = (splitFrom none text.toList).map fun u => ByteText.toString (u.flatMap bytesOf) := by
      rw [htexts, Source.ofText, hsplit, List.map_map]
      rfl
    _ = splitWords text := by
      simp only [htext]
      rfl

/-- A script in which only spaces would have a meaning. -/
def IsSpaced (script : String) : Prop := ∀ c ∈ script.toList, isLiteral c = true ∨ c = ' '

instance : DecidablePred IsSpaced := fun script =>
  decidable_of_iff (script.toList.all fun c => isLiteral c || c == ' ') (by simp [IsSpaced])

variable {script : String}

theorem IsSpaced.isPlain (h : IsSpaced script) : ∀ c ∈ script.toList, IsPlain c := by
  intro c hc
  obtain hliteral | rfl := h c hc
  · have hchar := literalChar_of_isLiteral hliteral
    exact ⟨hchar.ne_backslash, fun hseparator => by simp [hchar.not_separator] at hseparator⟩
  · exact ⟨by decide, fun _ => rfl⟩

theorem IsSpaced.isSimple (h : IsSpaced script) : IsSimple script.toList := isSimple_of_forall h

theorem isSimple_flatMap_escaped (h : ∀ c ∈ t, isLiteral c = true ∨ c = ' ') :
    IsSimple (t.flatMap escaped) := by
  induction t with
  | nil => exact .ended
  | cons c t ih =>
    rw [List.forall_mem_cons] at h
    rw [List.flatMap_cons]
    by_cases hspace : c = ' '
    · subst hspace
      exact .quoted (by decide) (ih h.2)
    · have hescaped : escaped c = [c] := if_neg (by simpa using hspace)
      rw [hescaped]
      exact .literal (h.1.resolve_right hspace) (ih h.2)

theorem IsSpaced.isSimple_escapeSpaces (h : IsSpaced script) :
    IsSimple (Text.escapeSpaces script).toList := by
  rw [toList_escapeSpaces]
  exact isSimple_flatMap_escaped h

theorem isSimple_append_space {a b : String} (ha : IsSimple a.toList) (hb : IsSimple b.toList) :
    IsSimple (a ++ " " ++ b).toList := by
  rw [String.toList_append, String.toList_append]
  exact (ha.append (.gap (.inl rfl) .ended)).append hb

end HostReach.Shell
