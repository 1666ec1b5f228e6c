import HostReach.Proofs.Json.Soundness

/-!
JSON is accepted. A tree is passed over to its end, and read exactly if it has a value and nests no
deeper than the reader may go. With soundness this says which texts are read, and as what.
-/
namespace HostReach.Json

variable {t u r rest : List Char}

theorem skipSpace_space (w : Space) (t : List Char) : skipSpace (w ++ t) = skipSpace t :=
  skipSpace_append w.isSpace t

theorem Tree.chars_eq_cons (v : Tree) (rest : List Char) :
    ∃ c t, v.chars rest = c :: t ∧ isSpace c = false ∧ c ≠ ']' := by
  cases v with
  | number n =>
    rw [chars, Numeral.text]
    split
    · exact ⟨_, _, rfl, by decide⟩
    · have hdigit := n.whole.isDigit_first
      exact ⟨_, _, rfl, isSpace_of_isDigit hdigit, ne_of_isDigit hdigit rfl⟩
  | bool b => cases b <;> exact ⟨_, _, rfl, by decide⟩
  | _ => exact ⟨_, _, rfl, by decide⟩

theorem Elements.chars_eq_cons (es : Elements) (rest : List Char) :
    ∃ c t, es.chars rest = c :: t ∧ isSpace c = false ∧ c ≠ ']' := by
  cases es <;> exact Tree.chars_eq_cons _ _

theorem skipSpace_chars (v : Tree) (rest : List Char) :
    skipSpace (v.chars rest) = v.chars rest := by
  obtain ⟨c, t, hc, hspace, -⟩ := v.chars_eq_cons rest
  rw [hc, skipSpace_cons hspace]

theorem endsNumber_isSpace {c : Char} (hc : isSpace c = true)
    (t : List Char) : EndsNumber (c :: t) := by
  apply endsNumber_cons
  simp only [isSpace, Bool.or_eq_true, beq_iff_eq] at hc
  rcases hc with ((rfl | rfl) | rfl) | rfl <;> decide

theorem endsNumber_space (w : Space) {c : Char}
    (hc : Decimal.isDigit c = false ∧ c ≠ '.' ∧ c ≠ 'e' ∧ c ≠ 'E') (t : List Char) :
    EndsNumber (w ++ c :: t) := by
  obtain ⟨w, hw⟩ := w
  cases w with
  | nil => exact endsNumber_cons hc t
  | cons d w => exact endsNumber_isSpace (hw d (by simp)) _

theorem endsNumber_chars (w : Space) : EndsNumber w := by
  obtain ⟨w, hw⟩ := w
  cases w with
  | nil => exact fun c r h => by cases h
  | cons d w => exact endsNumber_isSpace (hw d (by simp)) _

theorem Tree.EndsAt.of_endsNumber {v : Tree} (h : EndsNumber rest) : v.EndsAt rest := by
  cases v with
  | number n => exact Numeral.EndsAt.of_endsNumber h
  | _ => exact trivial

theorem Tree.endsAt_space (v : Tree) (after : Space) {c : Char}
    (hc : Decimal.isDigit c = false ∧ c ≠ '.' ∧ c ≠ 'e' ∧ c ≠ 'E')
    (t : List Char) : v.EndsAt (after ++ c :: t) :=
  .of_endsNumber (endsNumber_space after hc t)

theorem length_fractionText (rest : List Char) (o : Option Digits) :
    rest.length ≤ (fractionText rest o).length := by
  cases o with
  | none => exact Nat.le_refl _
  | some ds =>
    rw [fractionText, List.length_cons, List.length_append]
    omega

theorem length_exponentText (rest : List Char) (o : Option Exponent) :
    rest.length ≤ (exponentText rest o).length := by
  cases o with
  | none => exact Nat.le_refl _
  | some e =>
    simp only [exponentText, List.length_cons, List.length_append]
    omega

theorem Numeral.length_lt (n : Numeral) (rest : List Char) :
    rest.length < (n.text rest).length := by
  have hfraction := length_fractionText (exponentText rest n.exponent) n.fraction
  have hexponent := length_exponentText rest n.exponent
  have hunsigned : rest.length < (n.unsigned rest).length := by
    rw [unsigned, List.length_append, Digits.chars, List.length_cons]
    omega
  unfold text
  split
  · rw [List.length_cons]
    omega
  · exact hunsigned

theorem Literal.length_lt (gs : Literal) (rest : List Char) :
    rest.length < (Literal.text gs rest).length := by
  simp only [Literal.text, List.length_append, List.length_cons]
  omega

mutual

theorem Tree.length_lt (rest : List Char) : (v : Tree) → rest.length < (v.chars rest).length
  | .null | .bool true | .bool false => by
    simp only [Tree.chars, List.length_cons]
    omega
  | .number n => n.length_lt rest
  | .text gs => Nat.lt_succ_of_lt (Literal.length_lt gs rest)
  | .emptyArray w | .emptyObject w => by
    simp only [Tree.chars, List.length_cons, List.length_append]
    omega
  | .array w es => by
    have hes := es.length_lt rest
    simp only [Tree.chars, List.length_cons, List.length_append]
    omega
  | .object w es => by
    have hes := es.length_lt rest
    simp only [Tree.chars, List.length_cons, List.length_append]
    omega

theorem Elements.length_lt (rest : List Char) : (es : Elements) →
    rest.length < (es.chars rest).length
  | .last v after => by
    have hv := v.length_lt (after ++ ']' :: rest)
    simp only [List.length_append, List.length_cons] at hv
    simp only [Elements.chars]
    omega
  | .cons v after before es => by
    have hes := es.length_lt rest
    have hv := v.length_lt (after ++ ',' :: (before ++ es.chars rest))
    simp only [List.length_append, List.length_cons] at hv
    simp only [Elements.chars]
    omega

theorem Entries.length_lt (rest : List Char) : (es : Entries) → rest.length < (es.chars rest).length
  | .last k beforeColon afterColon v after => by
    have hv := v.length_lt (after ++ '\x7d' :: rest)
    have hk :=
      Literal.length_lt k (beforeColon ++ ':' :: (afterColon ++ v.chars (after ++ '\x7d' :: rest)))
    simp only [List.length_append, List.length_cons] at hv hk
    simp only [Entries.chars]
    omega
  | .cons k beforeColon afterColon v after before es => by
    have hes := es.length_lt rest
    have hv := v.length_lt (after ++ ',' :: (before ++ '\x22' :: es.chars rest))
    have hk := Literal.length_lt k (beforeColon ++ ':' ::
      (afterColon ++ v.chars (after ++ ',' :: (before ++ '\x22' :: es.chars rest))))
    simp only [List.length_append, List.length_cons] at hv hk
    simp only [Entries.chars]
    omega

end

theorem length_behind_key (k : Literal) (beforeColon afterColon : Space) (t : List Char) :
    t.length + 1 < (Literal.text k (beforeColon ++ ':' :: (afterColon ++ t))).length := by
  simp only [Literal.text, List.length_append, List.length_cons]
  omega

theorem length_behind_tree (v : Tree) (after before : Space) {c : Char} (t : List Char) :
    t.length < (v.chars (after ++ c :: (before ++ t))).length := by
  have hv := v.length_lt (after ++ c :: (before ++ t))
  simp only [List.length_append, List.length_cons] at hv
  omega

theorem firstElement_done (w : Space) (rest : List Char) :
    firstElement (w ++ ']' :: rest) = .ok (.done rest) := by
  rw [firstElement, skipSpace_space, skipSpace_cons (by decide)]
  rfl

theorem firstElement_elements (w : Space) (es : Elements) (rest : List Char) :
    firstElement (w ++ es.chars rest) = .ok (.more (es.chars rest)) := by
  obtain ⟨c, t, hc, hspace, hbracket⟩ := es.chars_eq_cons rest
  rw [hc, firstElement_more w.isSpace hspace hbracket]

theorem nextElement_space (w : Space) (t : List Char) : nextElement (w ++ t) = nextElement t := by
  rw [nextElement, nextElement, skipSpace_space]

theorem nextElement_elements (after before : Space) (es : Elements) (rest : List Char) :
    nextElement (after ++ ',' :: (before ++ es.chars rest)) = .ok (.more (es.chars rest)) := by
  obtain ⟨c, t, hc, hspace, hbracket⟩ := es.chars_eq_cons rest
  rw [nextElement_space, hc, nextElement_more before.isSpace hspace hbracket]

theorem skipNextElement_done (w : Space) (rest : List Char) :
    skipNextElement (w ++ ']' :: rest) = .ok (.done rest) := by
  rw [skipNextElement, skipSpace_space, skipSpace_cons (by decide)]
  rfl

theorem skipNextElement_comma (w : Space) (t : List Char) :
    skipNextElement (w ++ ',' :: t) = .ok (.more t) := by
  rw [skipNextElement, skipSpace_space, skipSpace_cons (by decide)]
  rfl

theorem firstMember_done (w : Space) (rest : List Char) :
    firstMember (w ++ '\x7d' :: rest) = .ok (.done rest) := by
  rw [firstMember, skipSpace_space, skipSpace_cons (by decide)]
  rfl

theorem nextMember_quote (after before : Space) (t : List Char) :
    nextMember (after ++ ',' :: (before ++ '\x22' :: t)) = .ok (.more t) := by
  have hspace : nextMember (after ++ ',' :: (before ++ '\x22' :: t)) =
      nextMember (',' :: (before ++ '\x22' :: t)) := by
    rw [nextMember, nextMember, skipSpace_space]
  rw [hspace, nextMember_more before.isSpace]

theorem readColon_space (w : Space) (t : List Char) : readColon (w ++ ':' :: t) = .ok t := by
  rw [readColon, skipSpace_space, skipSpace_cons (by decide)]
  rfl

theorem skipValue_space (w : Space) (fuel : Nat) (t : List Char) :
    skipValue (fuel + 1) (w ++ t) = skipValue (fuel + 1) t := by
  rw [skipValue, skipValue, skipSpace_space]

theorem skipElements_space (w : Space) (fuel : Nat) (t : List Char) :
    skipElements (fuel + 2) (w ++ t) = skipElements (fuel + 2) t := by
  rw [skipElements, skipElements, skipValue_space]

theorem skipValue_digit {c : Char} (h : Decimal.isDigit c = true) (fuel : Nat) (t : List Char) :
    skipValue (fuel + 1) (c :: t) = skipNumber (c :: t) := by
  rw [skipValue, skipSpace_cons (isSpace_of_isDigit h)]
  split <;> rename_i heq <;> cases heq
  · exact absurd rfl (ne_of_isDigit h (d := 'n') rfl)
  · exact absurd rfl (ne_of_isDigit h (d := 't') rfl)
  · exact absurd rfl (ne_of_isDigit h (d := 'f') rfl)
  · exact absurd rfl (ne_of_isDigit h (d := '-') rfl)
  · exact absurd rfl (ne_of_isDigit h (d := '\x22') rfl)
  · exact absurd rfl (ne_of_isDigit h (d := '[') rfl)
  · exact absurd rfl (ne_of_isDigit h (d := '\x7b') rfl)
  · rw [if_pos h]

theorem skipValue_number {n : Numeral} (h : n.EndsAt rest) (fuel : Nat) :
    skipValue (fuel + 1) (n.text rest) = .ok rest := by
  have hskip := skipNumber_unsigned h
  unfold Numeral.text
  split
  · rw [skipValue, skipSpace_cons (by decide)]
    exact hskip
  · rw [Numeral.unsigned, Digits.chars, List.cons_append] at hskip ⊢
    rw [skipValue_digit n.whole.isDigit_first, hskip]

mutual

theorem Tree.skipValue_chars : (v : Tree) → (rest : List Char) → v.EndsAt rest → (fuel : Nat) →
    2 * (v.chars rest).length ≤ fuel → skipValue fuel (v.chars rest) = .ok rest
  | v, rest, _, 0, hfuel => by
    have hlength := v.length_lt rest
    omega
  | .null, _, _, _ + 1, _ | .bool true, _, _, _ + 1, _ | .bool false, _, _, _ + 1, _ => by
    rw [skipValue]
    rfl
  | .number n, rest, hrest, fuel + 1, _ => skipValue_number hrest fuel
  | .text gs, rest, _, fuel + 1, _ => by
    rw [Tree.chars, skipValue, skipSpace_cons (by decide)]
    exact skipString_text gs rest
  | .emptyArray w, rest, _, fuel + 1, _ => by
    rw [Tree.chars, skipValue, skipSpace_cons (by decide)]
    simp only [firstElement_done]
  | .array w es, rest, _, fuel + 1, hfuel => by
    simp only [Tree.chars, List.length_cons, List.length_append] at hfuel
    rw [Tree.chars, skipValue, skipSpace_cons (by decide)]
    simp only [firstElement_elements]
    exact es.skipElements_chars rest fuel (by omega)
  | .emptyObject w, rest, _, fuel + 1, _ => by
    rw [Tree.chars, skipValue, skipSpace_cons (by decide)]
    simp only [firstMember_done]
  | .object w es, rest, _, fuel + 1, hfuel => by
    simp only [Tree.chars, List.length_cons, List.length_append] at hfuel
    rw [Tree.chars, skipValue, skipSpace_cons (by decide)]
    simp only [firstMember_more w.isSpace]
    exact es.skipMembers_chars rest fuel (by omega)

theorem Elements.skipElements_chars : (es : Elements) → (rest : List Char) → (fuel : Nat) →
    2 * (es.chars rest).length < fuel → skipElements fuel (es.chars rest) = .ok rest
  | _, _, 0, hfuel => by omega
  | .last v after, rest, fuel + 1, hfuel => by
    have hends := v.endsAt_space after (c := ']') (by decide) rest
    have hv := v.skipValue_chars _ hends fuel (Nat.le_of_lt_succ hfuel)
    rw [Elements.chars, skipElements]
    simp only [hv, skipNextElement_done]
  | .cons v after before es, rest, fuel + 1, hfuel => by
    have hends := v.endsAt_space after (c := ',') (by decide) (before ++ es.chars rest)
    have hv := v.skipValue_chars _ hends fuel (Nat.le_of_lt_succ hfuel)
    have hlength := length_behind_tree v after before (c := ',') (es.chars rest)
    have hpos := es.length_lt rest
    rw [Elements.chars] at hfuel
    have hes := es.skipElements_chars rest fuel (by omega)
    obtain ⟨fuel, rfl⟩ : ∃ f, fuel = f + 2 := ⟨fuel - 2, by omega⟩
    rw [Elements.chars, skipElements]
    simp only [hv, skipNextElement_comma, skipElements_space, hes]

theorem Entries.skipMembers_chars : (es : Entries) → (rest : List Char) → (fuel : Nat) →
    2 * (es.chars rest).length < fuel → skipMembers fuel (es.chars rest) = .ok rest
  | _, _, 0, hfuel => by omega
  | .last k beforeColon afterColon v after, rest, fuel + 1, hfuel => by
    have hends := v.endsAt_space after (c := '\x7d') (by decide) rest
    have hlength := length_behind_key k beforeColon afterColon (v.chars (after ++ '\x7d' :: rest))
    rw [Entries.chars] at hfuel
    have hv := v.skipValue_chars _ hends fuel (by omega)
    obtain ⟨fuel, rfl⟩ : ∃ f, fuel = f + 1 := ⟨fuel - 1, by omega⟩
    rw [Entries.chars, skipMembers]
    simp only [skipString_text, readColon_space, skipValue_space, hv,
      skipNextMember_of_nextMember (nextMember_done after.isSpace rest)]
  | .cons k beforeColon afterColon v after before es, rest, fuel + 1, hfuel => by
    have hends := v.endsAt_space after (c := ',') (by decide) (before ++ '\x22' :: es.chars rest)
    have hlength := length_behind_key k beforeColon afterColon
      (v.chars (after ++ ',' :: (before ++ '\x22' :: es.chars rest)))
    have htail := length_behind_tree v after before (c := ',') ('\x22' :: es.chars rest)
    rw [List.length_cons] at htail
    rw [Entries.chars] at hfuel
    have hv := v.skipValue_chars _ hends fuel (by omega)
    have hes := es.skipMembers_chars rest fuel (by omega)
    obtain ⟨fuel, rfl⟩ : ∃ f, fuel = f + 1 := ⟨fuel - 1, by omega⟩
    rw [Entries.chars, skipMembers]
    simp only [skipString_text, readColon_space, skipValue_space, hv,
      skipNextMember_of_nextMember (nextMember_quote after before _), hes]

end

theorem readValue_number {n : Numeral} (h : n.EndsAt rest) {fuel levels : Nat} {x : Value} :
    readValue (fuel + 1) levels (n.text rest) = .ok (x, r) ↔
      (Tree.number n).value? = some x ∧ x.depth ≤ levels ∧ r = rest := by
  have hread : readValue (fuel + 1) levels (n.text rest) =
      (readNumber n.negative (n.unsigned rest)).map fun p => (p.1.value, p.2) := by
    unfold Numeral.text
    split
    · rename_i hneg
      rw [readValue_minus, hneg]
    · rename_i hneg
      rw [Numeral.unsigned, Digits.chars, List.cons_append, readValue_digit n.whole.isDigit_first,
        Bool.eq_false_iff.mpr hneg]
  simp only [hread, map_eq_ok, Prod.exists, readNumber_unsigned h, Tree.value?,
    Option.map_eq_some_iff]
  constructor
  · rintro ⟨y, _, ⟨hy, rfl⟩, hx⟩
    cases hx
    exact ⟨⟨y, hy, rfl⟩, by simp [Number.depth_value], rfl⟩
  · rintro ⟨⟨y, hy, rfl⟩, -, rfl⟩
    exact ⟨y, r, ⟨hy, rfl⟩, rfl⟩

theorem readValue_text (gs : Literal) {fuel levels : Nat} {x : Value} :
    readValue (fuel + 1) levels ((Tree.text gs).chars rest) = .ok (x, r) ↔
      (Tree.text gs).value? = some x ∧ x.depth ≤ levels ∧ r = rest := by
  rw [Tree.chars, readValue_quote]
  simp only [map_eq_ok, Prod.exists, readString_text, Tree.value?, Option.map_eq_some_iff]
  constructor
  · rintro ⟨s, _, ⟨hs, rfl⟩, hx⟩
    cases hx
    exact ⟨⟨s, hs, rfl⟩, by simp [Value.depth], rfl⟩
  · rintro ⟨⟨s, hs, rfl⟩, -, rfl⟩
    exact ⟨s, r, ⟨hs, rfl⟩, rfl⟩

theorem reads_iff {v : Tree} {x y : Value} {levels : Nat} (hy : v.value? = some y)
    (hdepth : y.depth ≤ levels) :
    (Except.ok (y, rest) : Read Value) = .ok (x, r) ↔
    v.value? = some x ∧ x.depth ≤ levels ∧ r = rest := by
  rw [hy]
  constructor
  · intro h
    cases h
    exact ⟨rfl, hdepth, rfl⟩
  · rintro ⟨hx, -, rfl⟩
    cases hx
    rfl

theorem opens_iff {v : Tree} {x : Value} {levels : Nat}
    (hv : ∀ y, v.value? = some y → 0 < y.depth) :
    (∃ l, levels = l + 1 ∧ v.value? = some x ∧ x.depth ≤ l + 1 ∧ r = rest) ↔
      v.value? = some x ∧ x.depth ≤ levels ∧ r = rest := by
  constructor
  · rintro ⟨l, rfl, h⟩
    exact h
  · rintro ⟨hx, hdepth, hr⟩
    have hpos := hv x hx
    exact ⟨levels - 1, by omega, hx, by omega, hr⟩

theorem readsArray_empty (w : Space) {fuel levels : Nat} {x : Value} :
    ReadsArray fuel levels (w ++ ']' :: rest) x r ↔
      (Tree.emptyArray w).value? = some x ∧ x.depth ≤ levels + 1 ∧ r = rest := by
  unfold ReadsArray
  simp only [firstElement_done, Except.ok.injEq, Next.done.injEq, reduceCtorEq,
    false_and, exists_false, or_false, Tree.value?, Option.some.injEq]
  constructor
  · rintro ⟨rfl, rfl⟩
    exact ⟨rfl, by simp [Value.depth, Values.depth], rfl⟩
  · rintro ⟨rfl, -, rfl⟩
    exact ⟨rfl, rfl⟩

theorem readsObject_empty (w : Space) {fuel levels : Nat} {x : Value} :
    ReadsObject fuel levels (w ++ '\x7d' :: rest) x r ↔
      (Tree.emptyObject w).value? = some x ∧ x.depth ≤ levels + 1 ∧ r = rest := by
  unfold ReadsObject
  simp only [firstMember_done, Except.ok.injEq, Next.done.injEq, reduceCtorEq,
    false_and, exists_false, or_false, Tree.value?, Option.some.injEq]
  constructor
  · rintro ⟨rfl, rfl⟩
    exact ⟨rfl, by simp [Value.depth, Members.depth], rfl⟩
  · rintro ⟨rfl, -, rfl⟩
    exact ⟨rfl, rfl⟩

theorem readsArray_elements {w : Space} {es : Elements} {fuel levels : Nat} {x : Value}
    (h : ∀ vs r, readElements fuel levels (es.chars rest) = .ok (vs, r) ↔
      es.values? = some vs ∧ vs.depth ≤ levels ∧ r = rest) :
    ReadsArray fuel levels (w ++ es.chars rest) x r ↔
      (Tree.array w es).value? = some x ∧ x.depth ≤ levels + 1 ∧ r = rest := by
  unfold ReadsArray
  simp only [firstElement_elements, Except.ok.injEq, Next.more.injEq, reduceCtorEq,
    false_and, false_or, Tree.value?, Option.map_eq_some_iff]
  constructor
  · rintro ⟨_, vs, rfl, hread, rfl⟩
    obtain ⟨hvs, hdepth, hr⟩ := (h vs r).mp hread
    exact ⟨⟨vs, hvs, rfl⟩, Nat.succ_le_succ hdepth, hr⟩
  · rintro ⟨⟨vs, hvs, rfl⟩, hdepth, hr⟩
    exact ⟨_, vs, rfl, (h vs r).mpr ⟨hvs, Nat.le_of_succ_le_succ hdepth, hr⟩, rfl⟩

theorem readsObject_entries {w : Space} {es : Entries} {fuel levels : Nat} {x : Value}
    (h : ∀ ms r, readMembers fuel levels (es.chars rest) = .ok (ms, r) ↔
      es.members? = some ms ∧ ms.depth ≤ levels ∧ r = rest) :
    ReadsObject fuel levels (w ++ '\x22' :: es.chars rest) x r ↔
      (Tree.object w es).value? = some x ∧ x.depth ≤ levels + 1 ∧ r = rest := by
  unfold ReadsObject
  simp only [firstMember_more w.isSpace, Except.ok.injEq, Next.more.injEq, reduceCtorEq,
    false_and, false_or, Tree.value?, Option.map_eq_some_iff]
  constructor
  · rintro ⟨_, ms, rfl, hread, rfl⟩
    obtain ⟨hms, hdepth, hr⟩ := (h ms r).mp hread
    exact ⟨⟨ms, hms, rfl⟩, Nat.succ_le_succ hdepth, hr⟩
  · rintro ⟨⟨ms, hms, rfl⟩, hdepth, hr⟩
    exact ⟨_, ms, rfl, (h ms r).mpr ⟨hms, Nat.le_of_succ_le_succ hdepth, hr⟩, rfl⟩

theorem readElements_last {v : Tree} {after : Space} {fuel levels : Nat} {xs : Values}
    (h : ∀ x r, readValue fuel levels (v.chars (after ++ ']' :: rest)) = .ok (x, r) ↔
      v.value? = some x ∧ x.depth ≤ levels ∧ r = after ++ ']' :: rest) :
    readElements (fuel + 1) levels ((Elements.last v after).chars rest) = .ok (xs, r) ↔
      (Elements.last v after).values? = some xs ∧ xs.depth ≤ levels ∧ r = rest := by
  rw [readElements_eq_ok, Elements.chars, Elements.values?]
  simp only [h, Option.map_eq_some_iff]
  constructor
  · rintro ⟨x, _, ⟨hx, hdepth, rfl⟩, hnext⟩
    simp only [nextElement_done after.isSpace, Except.ok.injEq, Next.done.injEq,
      reduceCtorEq, false_and, exists_false, or_false] at hnext
    obtain ⟨rfl, rfl⟩ := hnext
    exact ⟨⟨x, hx, rfl⟩, Nat.max_le.mpr ⟨hdepth, Nat.zero_le _⟩, rfl⟩
  · rintro ⟨⟨x, hx, rfl⟩, hdepth, rfl⟩
    exact ⟨x, _, ⟨hx, (Nat.max_le.mp hdepth).1, rfl⟩, .inl ⟨nextElement_done after.isSpace r, rfl⟩⟩

theorem readElements_cons {v : Tree} {after before : Space} {es : Elements}
    {fuel levels : Nat} {xs : Values}
    (h : ∀ x r, readValue fuel levels (v.chars (after ++ ',' :: (before ++ es.chars rest))) =
      .ok (x, r) ↔
      v.value? = some x ∧ x.depth ≤ levels ∧ r = after ++ ',' :: (before ++ es.chars rest))
    (hes : ∀ xs r, readElements fuel levels (es.chars rest) = .ok (xs, r) ↔
      es.values? = some xs ∧ xs.depth ≤ levels ∧ r = rest) :
    readElements (fuel + 1) levels ((Elements.cons v after before es).chars rest) = .ok (xs, r) ↔
      (Elements.cons v after before es).values? = some xs ∧ xs.depth ≤ levels ∧ r = rest := by
  rw [readElements_eq_ok, Elements.chars, Elements.values?]
  simp only [h, Option.bind_eq_some_iff, Option.map_eq_some_iff]
  constructor
  · rintro ⟨x, _, ⟨hx, hdepth, rfl⟩, hnext⟩
    simp only [nextElement_elements, Except.ok.injEq, Next.more.injEq, reduceCtorEq, false_and,
      false_or] at hnext
    obtain ⟨_, xs, rfl, hread, rfl⟩ := hnext
    obtain ⟨hxs, hrest, rfl⟩ := (hes xs r).mp hread
    exact ⟨⟨x, hx, xs, hxs, rfl⟩, Nat.max_le.mpr ⟨hdepth, hrest⟩, rfl⟩
  · rintro ⟨⟨x, hx, xs, hxs, rfl⟩, hdepth, rfl⟩
    obtain ⟨hdepth, hrest⟩ := Nat.max_le.mp hdepth
    exact ⟨x, _, ⟨hx, hdepth, rfl⟩,
      .inr ⟨_, xs, nextElement_elements _ _ _ _, (hes xs r).mpr ⟨hxs, hrest, rfl⟩, rfl⟩⟩

theorem readMembers_last {k : Literal} {beforeColon afterColon after : Space} {v : Tree}
    {fuel levels : Nat} {ms : Members}
    (h : ∀ x r, readValue fuel levels (afterColon ++ v.chars (after ++ '\x7d' :: rest)) =
      .ok (x, r) ↔
      v.value? = some x ∧ x.depth ≤ levels ∧ r = after ++ '\x7d' :: rest) :
    readMembers (fuel + 1) levels
    ((Entries.last k beforeColon afterColon v after).chars rest) = .ok (ms, r) ↔
      (Entries.last k beforeColon afterColon v after).members? = some ms ∧ ms.depth ≤ levels ∧
      r = rest := by
  rw [readMembers_eq_ok, Entries.chars, Entries.members?]
  simp only [readString_text, Option.bind_eq_some_iff, Option.map_eq_some_iff]
  constructor
  · rintro ⟨s, _, _, x, _, ⟨hs, rfl⟩, hcolon, hread, hnext⟩
    rw [readColon_space] at hcolon
    cases hcolon
    obtain ⟨hx, hdepth, rfl⟩ := (h _ _).mp hread
    simp only [nextMember_done after.isSpace, Except.ok.injEq, Next.done.injEq,
      reduceCtorEq, false_and, exists_false, or_false] at hnext
    obtain ⟨rfl, rfl⟩ := hnext
    exact ⟨⟨s, hs, x, hx, rfl⟩, Nat.max_le.mpr ⟨hdepth, Nat.zero_le _⟩, rfl⟩
  · rintro ⟨⟨s, hs, x, hx, rfl⟩, hdepth, rfl⟩
    exact ⟨s, _, _, x, _, ⟨hs, rfl⟩, readColon_space _ _,
      (h _ _).mpr ⟨hx, (Nat.max_le.mp hdepth).1, rfl⟩, .inl ⟨nextMember_done after.isSpace r, rfl⟩⟩

theorem readMembers_cons {k : Literal} {beforeColon afterColon after before : Space} {v : Tree}
    {es : Entries} {fuel levels : Nat} {ms : Members}
    (h : ∀ x r,
      readValue fuel levels
      (afterColon ++ v.chars (after ++ ',' :: (before ++ '\x22' :: es.chars rest))) =
          .ok (x, r) ↔
        v.value? = some x ∧ x.depth ≤ levels ∧
        r = after ++ ',' :: (before ++ '\x22' :: es.chars rest))
    (hes : ∀ ms r, readMembers fuel levels (es.chars rest) = .ok (ms, r) ↔
      es.members? = some ms ∧ ms.depth ≤ levels ∧ r = rest) :
    readMembers (fuel + 1) levels
    ((Entries.cons k beforeColon afterColon v after before es).chars rest) =
        .ok (ms, r) ↔
      (Entries.cons k beforeColon afterColon v after before es).members? = some ms ∧
      ms.depth ≤ levels ∧
        r = rest := by
  rw [readMembers_eq_ok, Entries.chars, Entries.members?]
  simp only [readString_text, Option.bind_eq_some_iff, Option.map_eq_some_iff]
  constructor
  · rintro ⟨s, _, _, x, _, ⟨hs, rfl⟩, hcolon, hread, hnext⟩
    rw [readColon_space] at hcolon
    cases hcolon
    obtain ⟨hx, hdepth, rfl⟩ := (h _ _).mp hread
    simp only [nextMember_quote, Except.ok.injEq, Next.more.injEq, reduceCtorEq, false_and,
      false_or] at hnext
    obtain ⟨_, ms, rfl, hread, rfl⟩ := hnext
    obtain ⟨hms, hrest, rfl⟩ := (hes ms r).mp hread
    exact ⟨⟨s, hs, x, hx, ms, hms, rfl⟩, Nat.max_le.mpr ⟨hdepth, hrest⟩, rfl⟩
  · rintro ⟨⟨s, hs, x, hx, ms, hms, rfl⟩, hdepth, rfl⟩
    obtain ⟨hdepth, hrest⟩ := Nat.max_le.mp hdepth
    exact ⟨s, _, _, x, _, ⟨hs, rfl⟩, readColon_space _ _, (h _ _).mpr ⟨hx, hdepth, rfl⟩,
      .inr ⟨_, ms, nextMember_quote _ _ _, (hes ms r).mpr ⟨hms, hrest, rfl⟩, rfl⟩⟩

mutual

theorem Tree.readValue_chars : (v : Tree) → (rest : List Char) → v.EndsAt rest →
    (fuel levels : Nat) →
    2 * (v.chars rest).length ≤ fuel → ∀ x r, readValue fuel levels (v.chars rest) = .ok (x, r) ↔
      v.value? = some x ∧ x.depth ≤ levels ∧ r = rest
  | v, rest, _, 0, _, hfuel, x, r => by
    have hlength := v.length_lt rest
    omega
  | .null, rest, _, fuel + 1, levels, _, x, r | .bool true, rest, _, fuel + 1, levels, _, x, r
  | .bool false, rest, _, fuel + 1, levels, _, x, r => by
    rw [readValue]
    exact reads_iff rfl (Nat.zero_le _)
  | .number n, rest, hrest, fuel + 1, levels, _, x, r => readValue_number hrest
  | .text gs, rest, _, fuel + 1, levels, _, x, r => readValue_text gs
  | .emptyArray w, rest, _, fuel + 1, levels, _, x, r => by
    rw [Tree.chars, readValue_array_eq_ok (skipSpace_cons (by decide) _)]
    simp only [readsArray_empty]
    exact opens_iff (by simp [Tree.value?, Value.depth])
  | .array w es, rest, _, fuel + 1, levels, hfuel, x, r => by
    simp only [Tree.chars, List.length_cons, List.length_append] at hfuel
    have hes l := es.readElements_chars rest fuel l (by omega)
    rw [Tree.chars, readValue_array_eq_ok (skipSpace_cons (by decide) _)]
    simp only [readsArray_elements (hes _)]
    exact opens_iff (by simp [Tree.value?, Value.depth])
  | .emptyObject w, rest, _, fuel + 1, levels, _, x, r => by
    rw [Tree.chars, readValue_object_eq_ok (skipSpace_cons (by decide) _)]
    simp only [readsObject_empty]
    exact opens_iff (by simp [Tree.value?, Value.depth])
  | .object w es, rest, _, fuel + 1, levels, hfuel, x, r => by
    simp only [Tree.chars, List.length_cons, List.length_append] at hfuel
    have hes l := es.readMembers_chars rest fuel l (by omega)
    rw [Tree.chars, readValue_object_eq_ok (skipSpace_cons (by decide) _)]
    simp only [readsObject_entries (hes _)]
    exact opens_iff (by simp [Tree.value?, Value.depth])

theorem Elements.readElements_chars : (es : Elements) → (rest : List Char) → (fuel levels : Nat) →
    2 * (es.chars rest).length < fuel →
    ∀ xs r, readElements fuel levels (es.chars rest) = .ok (xs, r) ↔
      es.values? = some xs ∧ xs.depth ≤ levels ∧ r = rest
  | _, _, 0, _, hfuel, _, _ => by omega
  | .last v after, rest, fuel + 1, levels, hfuel, xs, r => by
    have hends := v.endsAt_space after (c := ']') (by decide) rest
    exact readElements_last (v.readValue_chars _ hends fuel levels (Nat.le_of_lt_succ hfuel))
  | .cons v after before es, rest, fuel + 1, levels, hfuel, xs, r => by
    have hends := v.endsAt_space after (c := ',') (by decide) (before ++ es.chars rest)
    have hv := v.readValue_chars _ hends fuel levels (Nat.le_of_lt_succ hfuel)
    have hlength := length_behind_tree v after before (c := ',') (es.chars rest)
    rw [Elements.chars] at hfuel
    exact readElements_cons hv (es.readElements_chars rest fuel levels (by omega))

theorem Entries.readMembers_chars : (es : Entries) → (rest : List Char) → (fuel levels : Nat) →
    2 * (es.chars rest).length < fuel →
    ∀ ms r, readMembers fuel levels (es.chars rest) = .ok (ms, r) ↔
      es.members? = some ms ∧ ms.depth ≤ levels ∧ r = rest
  | _, _, 0, _, hfuel, _, _ => by omega
  | .last k beforeColon afterColon v after, rest, fuel + 1, levels, hfuel, ms, r => by
    have hends := v.endsAt_space after (c := '\x7d') (by decide) rest
    have hlength := length_behind_key k beforeColon afterColon (v.chars (after ++ '\x7d' :: rest))
    rw [Entries.chars] at hfuel
    have hv := v.readValue_chars _ hends fuel levels (by omega)
    obtain ⟨fuel, rfl⟩ : ∃ f, fuel = f + 1 := ⟨fuel - 1, by omega⟩
    exact readMembers_last (by simpa only [readValue_skipSpace afterColon.isSpace] using hv)
  | .cons k beforeColon afterColon v after before es, rest, fuel + 1, levels, hfuel, ms, r => by
    have hends := v.endsAt_space after (c := ',') (by decide) (before ++ '\x22' :: es.chars rest)
    have hlength := length_behind_key k beforeColon afterColon
      (v.chars (after ++ ',' :: (before ++ '\x22' :: es.chars rest)))
    have htail := length_behind_tree v after before (c := ',') ('\x22' :: es.chars rest)
    rw [List.length_cons] at htail
    rw [Entries.chars] at hfuel
    have hv := v.readValue_chars _ hends fuel levels (by omega)
    have hes := es.readMembers_chars rest fuel levels (by omega)
    obtain ⟨fuel, rfl⟩ : ∃ f, fuel = f + 1 := ⟨fuel - 1, by omega⟩
    exact readMembers_cons (by simpa only [readValue_skipSpace afterColon.isSpace] using hv) hes

end

variable {v : Tree} {x : Value} {levels : Nat}

theorem skip_chars (w : Space) (hrest : v.EndsAt rest) : skip (w ++ v.chars rest) = .ok rest := by
  unfold skip fuelFor
  rw [skipValue_space]
  refine v.skipValue_chars rest hrest _ ?_
  rw [List.length_append]
  omega

theorem read_chars (w : Space) (hrest : v.EndsAt rest) :
    read levels (w ++ v.chars rest) = .ok (x, r) ↔
    v.value? = some x ∧ x.depth ≤ levels ∧ r = rest := by
  unfold read fuelFor
  rw [readValue_skipSpace w.isSpace]
  refine v.readValue_chars rest hrest _ levels ?_ x r
  rw [List.length_append]
  omega

theorem skip_eq_ok : skip t = .ok r ↔ ∃ v, TreeAt t r v := by
  constructor
  · exact exists_tree_of_skip
  · rintro ⟨v, ⟨w, rfl⟩, hv⟩
    exact skip_chars w hv

theorem read_eq_ok : read levels t = .ok (x, r) ↔
    ∃ v, TreeAt t r v ∧ v.value? = some x ∧ x.depth ≤ levels := by
  constructor
  · intro h
    obtain ⟨v, hv, hx⟩ := (readsTree _).value h
    exact ⟨v, hv, hx, (depthBounded _).1 _ _ _ _ h⟩
  · rintro ⟨v, ⟨⟨w, rfl⟩, hv⟩, hx, hdepth⟩
    exact (read_chars w hv).mpr ⟨hx, hdepth, rfl⟩

theorem skipSpace_eq_nil : skipSpace t = [] ↔ ∃ w : Space, t = w := by
  constructor
  · intro h
    obtain ⟨w, hw⟩ := exists_space_of_skipSpace h
    exact ⟨w, by rwa [List.append_nil] at hw⟩
  · rintro ⟨w, rfl⟩
    rw [← List.append_nil w.chars, skipSpace_space]
    rfl

theorem finish_eq_ok {α : Type} {read : Read α} {a : α} : finish read = .ok a ↔
    ∃ w : Space, read = .ok (a, ↑w) := by
  unfold finish
  rcases read with f | ⟨b, u⟩
  · simp
  · have hspace := skipSpace_eq_nil (t := u)
    cases hskip : skipSpace u with
    | nil =>
      obtain ⟨w, rfl⟩ := hspace.mp hskip
      simp only [hskip, Except.ok.injEq, Prod.mk.injEq]
      exact ⟨fun h => ⟨w, h, rfl⟩, fun ⟨_, h, _⟩ => h⟩
    | cons c t =>
      rw [hskip] at hspace
      simp only [hskip, reduceCtorEq, Except.ok.injEq, Prod.mk.injEq, false_iff, not_exists]
      exact fun w hw => absurd (hspace.mpr ⟨w, hw.2⟩) (by simp)

theorem treeAt_document (d : Document) : TreeAt (d.before ++ d.tree.chars d.after) d.after d.tree :=
  ⟨⟨d.before, rfl⟩, .of_endsNumber (endsNumber_chars d.after)⟩

theorem exists_document {s : String} {after : Space} {v : Tree} (h : TreeAt s.toList after v) :
    ∃ d : Document, d.text = s ∧ d.tree = v := by
  obtain ⟨⟨before, hs⟩, -⟩ := h
  refine ⟨⟨before, v, after⟩, ?_, rfl⟩
  rw [Document.text, ← hs, String.ofList_toList]

/-- A text is read as a value exactly if it stands for it and no more than the permitted arrays and
objects stand inside one another. -/
theorem ofText_eq_ok {s : String} : ofText s = .ok x ↔ Denotes s x ∧ x.depth ≤ maxDepth := by
  unfold ofText Denotes
  rw [finish_eq_ok]
  simp only [read_eq_ok]
  constructor
  · rintro ⟨after, v, hv, hx, hdepth⟩
    obtain ⟨d, hs, rfl⟩ := exists_document hv
    exact ⟨⟨d, hs, hx⟩, hdepth⟩
  · rintro ⟨⟨d, rfl, hx⟩, hdepth⟩
    refine ⟨d.after, d.tree, ?_, hx, hdepth⟩
    rw [Document.text, String.toList_ofList]
    exact treeAt_document d

theorem toOption_eq_some {ε α : Type} {x : Except ε α} {a : α} : x.toOption = some a ↔
    x = .ok a := by
  cases x <;> simp [Except.toOption]

theorem isJson_iff {s : String} : IsJson s ↔ ∃ w : Space, skip s.toList = .ok ↑w := by
  simp only [skip_eq_ok]
  constructor
  · rintro ⟨d, rfl⟩
    refine ⟨d.after, d.tree, ?_⟩
    rw [Document.text, String.toList_ofList]
    exact treeAt_document d
  · rintro ⟨after, v, hv⟩
    obtain ⟨d, hs, -⟩ := exists_document hv
    exact ⟨d, hs⟩

theorem not_isJson_of_skip {s : String} (h : (skip s.toList).toOption = none) : ¬IsJson s := by
  intro hjson
  obtain ⟨w, hw⟩ := isJson_iff.mp hjson
  rw [hw] at h
  cases h

theorem skipSpace_of_isObject {s : String} (h : IsObject s) :
    ∃ u, skipSpace s.toList = '\x7b' :: u := by
  obtain ⟨⟨before, v, after⟩, rfl, hv⟩ := h
  rw [Document.text, String.toList_ofList, skipSpace_space, skipSpace_chars]
  cases v with
  | emptyObject | object => exact ⟨_, rfl⟩
  | _ => cases hv

end HostReach.Json
