import HostReach.Json.Parser
import HostReach.Proofs.Json.Token

/-!
A printed value is read back, in every style that sets its parts apart by white space, exactly when
no more arrays and objects stand inside one another than the reader may open.
-/
namespace HostReach.Json

mutual

/-- Whether every number is an integer of 64 bits, signed or not. -/
def Value.isIntegral : Value → Bool
  | .int n => -Nat.pow 2 63 ≤ n && n < Nat.pow 2 64
  | .real _ => false
  | .array vs => vs.isIntegral
  | .object ms => ms.isIntegral
  | _ => true

def Values.isIntegral : Values → Bool
  | .nil => true
  | .cons v vs => v.isIntegral && vs.isIntegral

def Members.isIntegral : Members → Bool
  | .nil => true
  | .cons _ v ms => v.isIntegral && ms.isIntegral

end

def Style.IsSpaced : Style → Prop
  | .compact => True
  | .indented unit => ∀ c ∈ unit, isSpace c

variable {s : Style}

theorem Style.isSpace_lineBreak (hs : s.IsSpaced)
    (depth : Nat) : ∀ c ∈ s.lineBreak depth, isSpace c := by
  intro c hc
  cases s with
  | compact => simp [lineBreak] at hc
  | indented unit =>
    simp only [lineBreak, List.mem_cons, List.mem_flatten, List.mem_replicate] at hc
    rcases hc with rfl | ⟨l, ⟨-, rfl⟩, hc⟩
    · rfl
    · exact hs c hc

def Style.gap : Style → List Char
  | .compact => []
  | .indented _ => [' ']

theorem Style.colon_eq (s : Style) : s.colon = ':' :: s.gap := by
  cases s <;> rfl

theorem Style.isSpace_gap (s : Style) : ∀ c ∈ s.gap, isSpace c := by
  cases s <;> simp [gap, isSpace]

theorem isSpace_of_isDigit {c : Char} (h : Decimal.isDigit c = true) : isSpace c = false := by
  simp only [isSpace, Bool.or_eq_false_iff, beq_eq_false_iff_ne]
  refine ⟨⟨⟨?_, ?_⟩, ?_⟩, ?_⟩ <;> (rintro rfl; revert h; decide)

theorem ne_of_isDigit {c d : Char} (hc : Decimal.isDigit c = true)
    (hd : Decimal.isDigit d = false) :
    c ≠ d := by
  rintro rfl
  rw [hc] at hd
  cases hd

theorem digits_eq_cons (n : Nat) :
    ∃ c ds, Decimal.digits n = c :: ds ∧ Decimal.isDigit c = true := by
  cases h : Decimal.digits n with
  | nil => exact absurd h Nat.toDigits_ne_nil
  | cons c ds => exact ⟨c, ds, rfl, Decimal.isDigit_of_mem_digits (n := n) (by simp [h])⟩

theorem write_int_ofNat (n depth : Nat) :
    (Value.int (.ofNat n)).write s depth = Decimal.digits n := by
  simp [Value.write, Decimal.ofInt, Decimal.ofNat]

theorem write_int_negSucc (n depth : Nat) :
    (Value.int (.negSucc n)).write s depth = '-' :: Decimal.digits (n + 1) := by
  simp [Value.write, Decimal.ofInt, Decimal.ofNat]

theorem Value.write_eq_cons {v : Value} (hv : v.isIntegral) (s : Style) (depth : Nat) :
    ∃ c t, v.write s depth = c :: t ∧ isSpace c = false ∧ c ≠ ']' ∧ (v ≠ .null → c ≠ 'n') := by
  have begins {c : Char} {t : List Char} (hwrite : v.write s depth = c :: t)
      (hc : isSpace c = false ∧ c ≠ ']' ∧ c ≠ 'n') :
      ∃ c t, v.write s depth = c :: t ∧ isSpace c = false ∧ c ≠ ']' ∧ (v ≠ .null → c ≠ 'n') :=
    ⟨c, t, hwrite, hc.1, hc.2.1, fun _ => hc.2.2⟩
  cases v with
  | null => exact ⟨_, _, rfl, by decide, by decide, fun h => absurd rfl h⟩
  | bool b => cases b <;> exact begins rfl (by decide)
  | int n =>
    cases n with
    | ofNat n =>
      obtain ⟨c, ds, hds, hc⟩ := digits_eq_cons n
      exact begins (by rw [write_int_ofNat, hds])
        ⟨isSpace_of_isDigit hc, ne_of_isDigit hc rfl, ne_of_isDigit hc rfl⟩
    | negSucc n => exact begins (write_int_negSucc n depth) (by decide)
  | real x => simp [isIntegral] at hv
  | text t => exact begins rfl (by decide)
  | array vs =>
    cases vs with
    | nil => exact begins rfl (by decide)
    | cons v vs => exact begins rfl (by decide)
  | object ms =>
    cases ms with
    | nil => exact begins rfl (by decide)
    | cons k v ms => exact begins rfl (by decide)

theorem endsNumber_lineBreak (s : Style) (depth : Nat) {c : Char}
    (hc : Decimal.isDigit c = false ∧ c ≠ '.' ∧ c ≠ 'e' ∧ c ≠ 'E') (t : List Char) :
    EndsNumber (s.lineBreak depth ++ c :: t) := by
  cases s with
  | compact => exact endsNumber_cons hc t
  | indented unit => exact endsNumber_cons (by decide) _

theorem Values.endsNumber_writeRest (vs : Values) (s : Style) (depth : Nat) (rest : List Char) :
    EndsNumber (vs.writeRest s depth ++ rest) := by
  cases vs with
  | nil =>
    rw [writeRest, List.append_assoc]
    exact endsNumber_lineBreak s depth (by decide) rest
  | cons v vs => exact endsNumber_cons (by decide) _

theorem Members.endsNumber_writeRest (ms : Members) (s : Style) (depth : Nat) (rest : List Char) :
    EndsNumber (ms.writeRest s depth ++ rest) := by
  cases ms with
  | nil =>
    rw [writeRest, List.append_assoc]
    exact endsNumber_lineBreak s depth (by decide) rest
  | cons k v ms => exact endsNumber_cons (by decide) _

theorem firstElement_more {w t : List Char} {c : Char} (hw : ∀ d ∈ w, isSpace d)
    (hspace : isSpace c = false) (hc : c ≠ ']') :
    firstElement (w ++ c :: t) = .ok (.more (c :: t)) := by
  rw [firstElement, skipSpace_append hw, skipSpace_cons hspace]
  split <;> simp_all

theorem nextElement_done {w : List Char} (hw : ∀ d ∈ w, isSpace d) (t : List Char) :
    nextElement (w ++ ']' :: t) = .ok (.done t) := by
  rw [nextElement, skipSpace_append hw, skipSpace_cons (by decide)]
  rfl

theorem nextElement_more {w t : List Char} {c : Char} (hw : ∀ d ∈ w, isSpace d)
    (hspace : isSpace c = false) (hc : c ≠ ']') :
    nextElement (',' :: (w ++ c :: t)) = .ok (.more (c :: t)) := by
  rw [nextElement, skipSpace_cons (by decide)]
  simp only [skipSpace_append hw, skipSpace_cons hspace]
  split <;> simp_all

theorem firstMember_more {w : List Char} (hw : ∀ d ∈ w, isSpace d) (t : List Char) :
    firstMember (w ++ '\x22' :: t) = .ok (.more t) := by
  rw [firstMember, skipSpace_append hw, skipSpace_cons (by decide)]
  rfl

theorem nextMember_done {w : List Char} (hw : ∀ d ∈ w, isSpace d) (t : List Char) :
    nextMember (w ++ '\x7d' :: t) = .ok (.done t) := by
  rw [nextMember, skipSpace_append hw, skipSpace_cons (by decide)]
  rfl

theorem nextMember_more {w : List Char} (hw : ∀ d ∈ w, isSpace d) (t : List Char) :
    nextMember (',' :: (w ++ '\x22' :: t)) = .ok (.more t) := by
  rw [nextMember, skipSpace_cons (by decide)]
  simp only [skipSpace_append hw, skipSpace_cons (show isSpace '\x22' = false by decide)]

theorem readColon_colon (t : List Char) : readColon (':' :: t) = .ok t := by
  rw [readColon, skipSpace_cons (by decide)]
  rfl

theorem readValue_skipSpace {w : List Char} (hw : ∀ c ∈ w, isSpace c) (fuel levels : Nat)
    (t : List Char) : readValue (fuel + 1) levels (w ++ t) = readValue (fuel + 1) levels t := by
  rw [readValue, readValue, skipSpace_append hw]

theorem readValue_digit {c : Char} (h : Decimal.isDigit c = true) (fuel levels : Nat)
    (t : List Char) :
    readValue (fuel + 1) levels (c :: t) =
      (readNumber false (c :: t)).map fun p => (p.1.value, p.2) := by
  rw [readValue, skipSpace_cons (isSpace_of_isDigit h)]
  split <;> rename_i heq <;> cases heq
  · exact absurd rfl (ne_of_isDigit h (d := 'n') rfl)
  · exact absurd rfl (ne_of_isDigit h (d := 't') rfl)
  · exact absurd rfl (ne_of_isDigit h (d := 'f') rfl)
  · exact absurd rfl (ne_of_isDigit h (d := '-') rfl)
  · exact absurd rfl (ne_of_isDigit h (d := '\x22') rfl)
  · exact absurd rfl (ne_of_isDigit h (d := '[') rfl)
  · exact absurd rfl (ne_of_isDigit h (d := '\x7b') rfl)
  · rw [if_pos h]

theorem readValue_minus (fuel levels : Nat) (t : List Char) :
    readValue (fuel + 1) levels ('-' :: t) = (readNumber true t).map fun p => (p.1.value, p.2) := by
  rw [readValue, skipSpace_cons (by decide)]
  rfl

theorem readValue_quote (fuel levels : Nat) (t : List Char) :
    readValue (fuel + 1) levels ('\x22' :: t) = (readString t).map fun p => (.text p.1, p.2) := by
  rw [readValue, skipSpace_cons (by decide)]
  rfl

/-- The written value is read back wherever it stands, if enough levels may be opened. -/
def Value.ReadsBack (s : Style) (v : Value) : Prop :=
  ∀ fuel levels depth rest, EndsNumber rest → v.depth ≤ levels →
    2 * (v.write s depth).length ≤ fuel →
    readValue fuel levels (v.write s depth ++ rest) = .ok (v, rest)

theorem readsBack_int {n : Int} (hn : (Value.int n).isIntegral) : (Value.int n).ReadsBack s := by
  intro fuel levels depth rest hrest _ hfuel
  simp only [Value.isIntegral, Bool.and_eq_true, decide_eq_true_eq] at hn
  cases n with
  | ofNat n =>
    rw [write_int_ofNat] at hfuel ⊢
    obtain ⟨c, ds, hds, hc⟩ := digits_eq_cons n
    have hlt : n < Nat.pow 2 64 := by
      rw [Int.ofNat_eq_natCast] at hn
      omega
    cases fuel with
    | zero => simp [hds] at hfuel
    | succ fuel =>
      have hread := readNumber_digits hrest (ofInteger_digits hlt)
      rw [hds, List.cons_append] at hread ⊢
      rw [readValue_digit hc, hread]
      rfl
  | negSucc n =>
    rw [write_int_negSucc] at hfuel ⊢
    cases fuel with
    | zero => simp at hfuel
    | succ fuel =>
      have hle : n + 1 ≤ Nat.pow 2 63 := by omega
      rw [List.cons_append, readValue_minus,
        readNumber_digits hrest (ofInteger_digits_negative (by omega) hle)]
      rfl

theorem readsBack_text (t : String) : (Value.text t).ReadsBack s := by
  intro fuel levels depth rest _ _ hfuel
  cases fuel with
  | zero => simp [Value.write, quotedText] at hfuel
  | succ fuel =>
    simp only [Value.write, quotedText, List.cons_append, List.append_assoc, List.nil_append]
    rw [readValue_quote, readString_flatMap_escaped]
    rfl

theorem readsBack_word {v : Value} (h : v = .null ∨ v = .bool true ∨ v = .bool false) :
    v.ReadsBack s := by
  intro fuel levels depth rest _ _ hfuel
  cases fuel with
  | zero => rcases h with rfl | rfl | rfl <;> simp [Value.write] at hfuel
  | succ fuel =>
    rcases h with rfl | rfl | rfl <;> (rw [readValue]; rfl)

def Values.ReadBackAfter (s : Style) (vs : Values) : Prop :=
  ∀ v : Value, v.ReadsBack s → ∀ fuel levels depth rest, v.depth ≤ levels → vs.depth ≤ levels →
    2 * (v.write s (depth + 1) ++ vs.writeRest s depth).length ≤ fuel →
    readElements fuel levels (v.write s (depth + 1) ++ (vs.writeRest s depth ++ rest)) =
      .ok (.cons v vs, rest)

theorem Values.readBackAfter_nil (hs : s.IsSpaced) : Values.nil.ReadBackAfter s := by
  intro v hv fuel levels depth rest hlevels _ hfuel
  have hrest := endsNumber_writeRest nil s depth rest
  simp only [List.length_append, writeRest, List.length_singleton] at hfuel hrest ⊢
  cases fuel with
  | zero => omega
  | succ fuel =>
    rw [readElements, hv fuel levels _ _ hrest hlevels (by omega)]
    simp only [List.append_assoc, List.singleton_append,
      nextElement_done (Style.isSpace_lineBreak hs depth)]

theorem Values.readBackAfter_cons (hs : s.IsSpaced) {w : Value} {vs : Values} (hw : w.isIntegral)
    (hread : w.ReadsBack s) (hvs : vs.ReadBackAfter s) : (Values.cons w vs).ReadBackAfter s := by
  intro v hv fuel levels depth rest hlevels hdepth hfuel
  have hrest := endsNumber_writeRest (cons w vs) s depth rest
  obtain ⟨c, t, hc, hspace, hbracket, -⟩ := Value.write_eq_cons hw s (depth + 1)
  simp only [Values.depth, Nat.max_le] at hdepth
  simp only [List.length_append, writeRest, List.length_cons, List.append_assoc,
    List.cons_append] at hfuel hrest ⊢
  cases fuel with
  | zero => omega
  | succ fuel =>
    have htail := hvs w hread fuel levels depth rest hdepth.1 hdepth.2 (by simp; omega)
    rw [readElements, hv fuel levels _ _ hrest hlevels (by omega)]
    rw [hc, List.cons_append] at htail ⊢
    simp only [nextElement_more (Style.isSpace_lineBreak hs _) hspace hbracket, htail]

theorem Value.readsBack_array_nil : (Value.array .nil).ReadsBack s := by
  intro fuel levels depth rest _ hlevels hfuel
  cases fuel with
  | zero => simp [Value.write] at hfuel
  | succ fuel =>
    cases levels with
    | zero => simp [Value.depth] at hlevels
    | succ levels =>
      rw [readValue]
      rfl

theorem Value.readsBack_array_cons (hs : s.IsSpaced) {v : Value} {vs : Values} (hv : v.isIntegral)
    (hread : v.ReadsBack s) (hvs : vs.ReadBackAfter s) :
    (Value.array (.cons v vs)).ReadsBack s := by
  intro fuel levels depth rest _ hlevels hfuel
  obtain ⟨c, t, hc, hspace, hbracket, -⟩ := Value.write_eq_cons hv s (depth + 1)
  simp only [Value.depth, Values.depth] at hlevels
  simp only [Value.write, List.length_append, List.length_cons, List.append_assoc,
    List.cons_append] at hfuel ⊢
  cases fuel with
  | zero => omega
  | succ fuel =>
    cases levels with
    | zero => omega
    | succ levels =>
      have helements := hvs v hread fuel levels depth rest (by omega) (by omega) (by simp; omega)
      rw [hc, List.cons_append] at helements ⊢
      rw [readValue, skipSpace_cons (by decide)]
      simp only [firstElement_more (Style.isSpace_lineBreak hs _) hspace hbracket, helements]

def Members.writeFrom (s : Style) (depth : Nat) (k : String) (v : Value)
    (ms : Members) : List Char :=
  k.toList.flatMap escaped ++ '\x22' :: (s.colon ++ (v.write s (depth + 1) ++ ms.writeRest s depth))

def Members.ReadBackAfter (s : Style) (ms : Members) : Prop :=
  ∀ k, ∀ v : Value, v.ReadsBack s → ∀ fuel levels depth rest, v.depth ≤ levels → ms.depth ≤ levels →
    2 * (v.write s (depth + 1) ++ ms.writeRest s depth).length < fuel →
    readMembers fuel levels (ms.writeFrom s depth k v ++ rest) = .ok (.cons k v ms, rest)

theorem readString_writeFrom (k : String) (v : Value) (ms : Members) (depth : Nat)
    (rest : List Char) :
    readString (ms.writeFrom s depth k v ++ rest) =
      .ok (k, ':' :: (s.gap ++ (v.write s (depth + 1) ++ (ms.writeRest s depth ++ rest)))) := by
  simp only [Members.writeFrom, Style.colon_eq, List.append_assoc, List.cons_append]
  exact readString_flatMap_escaped k _

theorem Value.ReadsBack.after_gap {v : Value} (hv : v.ReadsBack s) {fuel levels depth : Nat}
    {rest : List Char} (hrest : EndsNumber rest) (hlevels : v.depth ≤ levels)
    (hpos : 0 < fuel) (hfuel : 2 * (v.write s depth).length ≤ fuel) :
    readValue fuel levels (s.gap ++ (v.write s depth ++ rest)) = .ok (v, rest) := by
  obtain ⟨fuel, rfl⟩ := Nat.exists_eq_succ_of_ne_zero (Nat.ne_of_gt hpos)
  rw [readValue_skipSpace s.isSpace_gap]
  exact hv _ _ _ _ hrest hlevels hfuel

theorem Members.length_writeRest_pos (ms : Members) (s : Style) (depth : Nat) :
    0 < (ms.writeRest s depth).length := by
  cases ms <;> simp [writeRest]

theorem Members.readBackAfter_nil (hs : s.IsSpaced) : Members.nil.ReadBackAfter s := by
  intro k v hv fuel levels depth rest hlevels _ hfuel
  have hrest := endsNumber_writeRest nil s depth rest
  have hpos := nil.length_writeRest_pos s depth
  rw [List.length_append] at hfuel
  cases fuel with
  | zero => omega
  | succ fuel =>
    have hvalue := hv.after_gap hrest hlevels (show 0 < fuel by omega)
      (show 2 * (v.write s (depth + 1)).length ≤ fuel by omega)
    rw [readMembers, readString_writeFrom]
    simp only [readColon_colon, hvalue]
    simp only [writeRest, List.append_assoc, List.singleton_append,
      nextMember_done (Style.isSpace_lineBreak hs depth)]

theorem Members.writeRest_cons (s : Style) (depth : Nat) (k : String) (v : Value) (ms : Members) :
    (cons k v ms).writeRest s depth =
      ',' :: (s.lineBreak (depth + 1) ++ '\x22' :: ms.writeFrom s depth k v) := by
  simp [writeRest, writeFrom, quotedText]

theorem Members.length_writeFrom (s : Style) (depth : Nat) (k : String) (v : Value) (ms : Members) :
    (v.write s (depth + 1) ++ ms.writeRest s depth).length < (ms.writeFrom s depth k v).length := by
  simp only [writeFrom, List.length_append, List.length_cons]
  omega

theorem Members.readBackAfter_cons (hs : s.IsSpaced) {l : String} {w : Value} {ms : Members}
    (hread : w.ReadsBack s) (hms : ms.ReadBackAfter s) : (Members.cons l w ms).ReadBackAfter s := by
  intro k v hv fuel levels depth rest hlevels hdepth hfuel
  have hrest := endsNumber_writeRest (cons l w ms) s depth rest
  have hlength := length_writeFrom s depth l w ms
  simp only [Members.depth, Nat.max_le] at hdepth
  rw [writeRest_cons] at hfuel hrest
  simp only [List.length_append, List.length_cons, List.cons_append, List.append_assoc]
    at hfuel hlength hrest
  cases fuel with
  | zero => omega
  | succ fuel =>
    have hvalue := hv.after_gap hrest hlevels (show 0 < fuel by omega)
      (show 2 * (v.write s (depth + 1)).length ≤ fuel by omega)
    have htail := hms l w hread fuel levels depth rest hdepth.1 hdepth.2
      (by rw [List.length_append]; omega)
    rw [readMembers, readString_writeFrom, writeRest_cons]
    simp only [readColon_colon, hvalue, List.cons_append, List.append_assoc]
    simp only [nextMember_more (Style.isSpace_lineBreak hs _), htail]

theorem Value.readsBack_object_nil : (Value.object .nil).ReadsBack s := by
  intro fuel levels depth rest _ hlevels hfuel
  cases fuel with
  | zero => simp [Value.write] at hfuel
  | succ fuel =>
    cases levels with
    | zero => simp [Value.depth] at hlevels
    | succ levels =>
      rw [readValue]
      rfl

theorem Value.write_object_cons (s : Style) (depth : Nat) (k : String) (v : Value) (ms : Members) :
    (Value.object (.cons k v ms)).write s depth =
      '\x7b' :: (s.lineBreak (depth + 1) ++ '\x22' :: ms.writeFrom s depth k v) := by
  simp [Value.write, Members.writeFrom, quotedText]

theorem Value.readsBack_object_cons (hs : s.IsSpaced) {k : String} {v : Value} {ms : Members}
    (hread : v.ReadsBack s) (hms : ms.ReadBackAfter s) :
    (Value.object (.cons k v ms)).ReadsBack s := by
  intro fuel levels depth rest _ hlevels hfuel
  have hlength := Members.length_writeFrom s depth k v ms
  simp only [Value.depth, Members.depth] at hlevels
  rw [write_object_cons] at hfuel ⊢
  simp only [List.length_append, List.length_cons, List.append_assoc, List.cons_append] at hfuel ⊢
  cases fuel with
  | zero => omega
  | succ fuel =>
    cases levels with
    | zero => omega
    | succ levels =>
      have hmembers := hms k v hread fuel levels depth rest (by omega) (by omega) (by omega)
      rw [readValue, skipSpace_cons (by decide)]
      simp only [firstMember_more (Style.isSpace_lineBreak hs _), hmembers]

mutual

/-- Every value with integers only is read back. -/
theorem Value.readsBack (hs : s.IsSpaced) : (v : Value) → v.isIntegral → v.ReadsBack s
  | .null, _ => readsBack_word (by simp)
  | .bool true, _ => readsBack_word (by simp)
  | .bool false, _ => readsBack_word (by simp)
  | .int _, h => readsBack_int h
  | .real _, h => by simp [Value.isIntegral] at h
  | .text t, _ => readsBack_text t
  | .array .nil, _ => Value.readsBack_array_nil
  | .array (.cons v vs), h => by
    simp only [Value.isIntegral, Values.isIntegral, Bool.and_eq_true] at h
    exact Value.readsBack_array_cons hs h.1 (v.readsBack hs h.1) (vs.readBackAfter hs h.2)
  | .object .nil, _ => Value.readsBack_object_nil
  | .object (.cons _ v ms), h => by
    simp only [Value.isIntegral, Members.isIntegral, Bool.and_eq_true] at h
    exact Value.readsBack_object_cons hs (v.readsBack hs h.1) (ms.readBackAfter hs h.2)

theorem Values.readBackAfter (hs : s.IsSpaced) : (vs : Values) → vs.isIntegral → vs.ReadBackAfter s
  | .nil, _ => Values.readBackAfter_nil hs
  | .cons v vs, h => by
    simp only [Values.isIntegral, Bool.and_eq_true] at h
    exact Values.readBackAfter_cons hs h.1 (v.readsBack hs h.1) (vs.readBackAfter hs h.2)

theorem Members.readBackAfter (hs : s.IsSpaced) :
    (ms : Members) → ms.isIntegral → ms.ReadBackAfter s
  | .nil, _ => Members.readBackAfter_nil hs
  | .cons _ v ms, h => by
    simp only [Members.isIntegral, Bool.and_eq_true] at h
    exact Members.readBackAfter_cons hs (v.readsBack hs h.1) (ms.readBackAfter hs h.2)

end

end HostReach.Json
