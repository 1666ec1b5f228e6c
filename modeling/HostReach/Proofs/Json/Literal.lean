import HostReach.Json.Skip
import HostReach.Proofs.Json.Token

/-!
Strings as they are written: characters that stand for themselves, short escapes, and escapes by
number, of which two may be the halves of one character. What is passed over as a string is made of
these, and reading one gives its characters, if no half stands alone.
-/
namespace HostReach.Json

structure HexDigit where
  char : Char
  value : Nat
  isHex : hexValue? char = some value

structure CodeUnit where
  first : HexDigit
  second : HexDigit
  third : HexDigit
  fourth : HexDigit

namespace CodeUnit

def chars (u : CodeUnit) : List Char := [u.first.char, u.second.char, u.third.char, u.fourth.char]

def value (u : CodeUnit) : Nat :=
  ((u.first.value * 16 + u.second.value) * 16 + u.third.value) * 16 + u.fourth.value

end CodeUnit

inductive Glyph where
  | plain (c : Char) (h : c ≠ '\x22' ∧ c ≠ '\\' ∧ ¬c < ' ')
  | short (e c : Char) (h : shortEscape? e = some c)
  | unit (u : CodeUnit)

def Glyph.chars : Glyph → List Char
  | .plain c _ => [c]
  | .short e _ _ => ['\\', e]
  | .unit u => '\\' :: 'u' :: u.chars

abbrev Literal := List Glyph

namespace Literal

def text (gs : Literal) (rest : List Char) : List Char := gs.flatMap Glyph.chars ++ '\x22' :: rest

def paired (high low : Nat) : Char :=
  Char.ofNat ((high - 0xD800) * 1024 + (low - 0xDC00) + 0x10000)

/-- The characters that are meant; a surrogate must be the first or the second one of a pair. -/
def chars? : Literal → Option (List Char)
  | [] => some []
  | .plain c _ :: gs => (chars? gs).map (c :: ·)
  | .short _ c _ :: gs => (chars? gs).map (c :: ·)
  | .unit u :: gs =>
    if isLowSurrogate u.value then none
    else if isHighSurrogate u.value then
      match gs with
      | .unit v :: gs =>
        if isLowSurrogate v.value then (chars? gs).map (paired u.value v.value :: ·) else none
      | _ => none
    else (chars? gs).map (Char.ofNat u.value :: ·)

theorem chars?_low {u : CodeUnit} (hlow : isLowSurrogate u.value = true) (gs : Literal) :
    chars? (.unit u :: gs) = none := by
  unfold chars?
  split
  all_goals simp_all

theorem chars?_pair {u v : CodeUnit} (hlow : isLowSurrogate u.value = false)
    (hhigh : isHighSurrogate u.value = true) (hv : isLowSurrogate v.value = true) (gs : Literal) :
    chars? (.unit u :: .unit v :: gs) = (chars? gs).map (paired u.value v.value :: ·) := by
  rw [chars?, if_neg (by simp [hlow]), if_pos hhigh]
  exact if_pos hv

theorem chars?_alone {u : CodeUnit} {gs : Literal} (hlow : isLowSurrogate u.value = false)
    (hhigh : isHighSurrogate u.value = true)
    (h : ∀ v gs', gs = .unit v :: gs' → isLowSurrogate v.value = false) :
    chars? (.unit u :: gs) = none := by
  cases gs with
  | nil => simp [chars?, hlow, hhigh]
  | cons g gs =>
    cases g with
    | unit v => simp [chars?, hlow, hhigh, h v gs rfl]
    | _ => simp [chars?, hlow, hhigh]

theorem chars?_unit {u : CodeUnit} (hlow : isLowSurrogate u.value = false)
    (hhigh : isHighSurrogate u.value = false) (gs : Literal) :
    chars? (.unit u :: gs) = (chars? gs).map (Char.ofNat u.value :: ·) := by
  cases gs with
  | nil => simp [chars?, hlow, hhigh]
  | cons g gs =>
    cases g with
    | unit v =>
      rw [chars?, if_neg (by simp [hlow]), if_neg (by simp [hhigh])]
    | _ => simp [chars?, hlow, hhigh]

def value? (gs : Literal) : Option String := gs.chars?.map String.ofList

end Literal

theorem readHex_chars (u : CodeUnit) (t : List Char) : readHex (u.chars ++ t) = .ok u.value := by
  have hsize : ¬Utf8.size u.chars < 4 := by
    have h₁ := u.first.char.utf8Size_pos
    have h₂ := u.second.char.utf8Size_pos
    have h₃ := u.third.char.utf8Size_pos
    have h₄ := u.fourth.char.utf8Size_pos
    simp only [CodeUnit.chars, Utf8.size, List.foldr_cons, List.foldr_nil]
    omega
  have htake : (u.chars ++ t).take 4 = u.chars := rfl
  unfold readHex
  rw [htake, if_neg hsize]
  simp [CodeUnit.chars, CodeUnit.value, u.first.isHex, u.second.isHex, u.third.isHex,
    u.fourth.isHex]

theorem exists_codeUnit {t : List Char} {n : Nat} (h : readHex t = .ok n) :
    ∃ u : CodeUnit, t = u.chars ++ t.drop 4 ∧ u.value = n := by
  unfold readHex at h
  split at h
  · cases h
  · split at h
    · rename_i a b c d hmap
      cases h
      rcases t with _ | ⟨w, _ | ⟨x, _ | ⟨y, _ | ⟨z, t⟩⟩⟩⟩ <;>
        simp [Option.bind_eq_some_iff] at hmap
      obtain ⟨ha, hb, hc, hd⟩ := hmap
      exact ⟨⟨⟨w, a, ha⟩, ⟨x, b, hb⟩, ⟨y, c, hc⟩, ⟨z, d, hd⟩⟩, rfl, rfl⟩
    · cases h

theorem ne_u_of_short {e c : Char} (h : shortEscape? e = some c) : e ≠ 'u' := by
  rintro rfl
  cases h

theorem Literal.text_cons (g : Glyph) (gs : Literal) (rest : List Char) :
    text (g :: gs) rest = g.chars ++ text gs rest := by
  simp [text]

theorem skipString_escape {e t : List Char} (h : skipEscape (e ++ t) = .ok e.length) :
    skipString 0 ('\\' :: (e ++ t)) = skipString 0 t := by
  have hskip : ∀ e : List Char, skipString e.length (e ++ t) = skipString 0 t := by
    intro e
    induction e with
    | nil => rfl
    | cons c e ih => rw [List.cons_append, List.length_cons, skipString, ih]
  rw [skipString]
  simp only [h, hskip]
  rfl

theorem skipString_text (gs : Literal) (rest : List Char) :
    skipString 0 (Literal.text gs rest) = .ok rest := by
  induction gs with
  | nil => rfl
  | cons g gs ih =>
    rw [Literal.text_cons, ← ih]
    cases g with
    | plain c h =>
      simp only [Glyph.chars, List.singleton_append, skipString, beq_iff_eq, h, if_false]
    | short e c h =>
      apply skipString_escape (e := [e])
      rw [List.singleton_append, skipEscape]
      · simp [h]
      · exact ne_u_of_short h
    | unit u =>
      apply skipString_escape (e := 'u' :: u.chars)
      rw [List.cons_append, skipEscape, readHex_chars]
      rfl

theorem exists_glyph_of_skipEscape {t : List Char} {k : Nat} (h : skipEscape t = .ok k) :
    ∃ g : Glyph, '\\' :: t = g.chars ++ t.drop k := by
  unfold skipEscape at h
  split at h
  · cases h
  · rename_i t
    cases hhex : readHex t with
    | error f => simp [hhex, Except.map] at h
    | ok n =>
      obtain ⟨u, hu, -⟩ := exists_codeUnit hhex
      simp only [hhex, Except.map, Except.ok.injEq] at h
      subst h
      refine ⟨.unit u, ?_⟩
      rw [Glyph.chars, List.drop_succ_cons, List.cons_append, List.cons_append, ← hu]
  · rename_i e t _
    split at h
    · rename_i c hc
      cases h
      exact ⟨.short e c hc, rfl⟩
    · cases h

theorem exists_literal_of_skipString {t r : List Char} {k : Nat} (h : skipString k t = .ok r) :
    ∃ gs : Literal, t.drop k = gs.text r := by
  induction t generalizing k with
  | nil => cases h
  | cons c t ih =>
    cases k with
    | succ k => exact ih h
    | zero =>
      rw [skipString] at h
      split at h
      · rename_i hquote
        cases h
        exact ⟨[], by rw [beq_iff_eq.mp hquote]; rfl⟩
      · rename_i hquote
        split at h
        · rename_i hbackslash
          split at h
          · cases h
          · rename_i k hescape
            obtain ⟨g, hg⟩ := exists_glyph_of_skipEscape hescape
            obtain ⟨gs, hgs⟩ := ih h
            exact ⟨g :: gs, by rw [Literal.text_cons, ← hgs, ← hg, beq_iff_eq.mp hbackslash]; rfl⟩
        · rename_i hbackslash
          split at h
          · cases h
          · rename_i hcontrol
            obtain ⟨gs, hgs⟩ := ih h
            refine ⟨.plain c ⟨?_, ?_, hcontrol⟩ :: gs, ?_⟩
            · simpa using hquote
            · simpa using hbackslash
            · rw [Literal.text_cons, ← hgs]
              rfl

variable {rest r cs : List Char}

theorem readEscape_unit {u : CodeUnit} (hlow : isLowSurrogate u.value = false)
    (hhigh : isHighSurrogate u.value = false) (t : List Char) :
    readEscape ('u' :: (u.chars ++ t)) = .ok (Char.ofNat u.value, 5) := by
  rw [readEscape, readHex_chars]
  simp [bind, Except.bind, hlow, hhigh]

theorem readEscape_low {u : CodeUnit} (hlow : isLowSurrogate u.value = true) (t : List Char) :
    ∃ f, readEscape ('u' :: (u.chars ++ t)) = .error f := by
  rw [readEscape, readHex_chars]
  simp [bind, Except.bind, hlow]

theorem readEscape_high {u : CodeUnit} (hlow : isLowSurrogate u.value = false)
    (hhigh : isHighSurrogate u.value = true) (t : List Char) :
    readEscape ('u' :: (u.chars ++ t)) = (readLowSurrogate u.value t).map fun p =>
      (p.1, p.2 + 5) := by
  rw [readEscape, readHex_chars]
  have hdrop : (u.chars ++ t).drop 4 = t := rfl
  simp only [bind, Except.bind, hlow, hhigh, hdrop, if_true, Bool.false_eq_true, if_false]
  cases readLowSurrogate u.value t <;> rfl

theorem readLowSurrogate_unit (high : Nat) {v : CodeUnit} (hlow : isLowSurrogate v.value = true)
    (t : List Char) :
    readLowSurrogate high ('\\' :: 'u' :: (v.chars ++ t)) =
      .ok (Literal.paired high v.value, 6) := by
  simp [readLowSurrogate, readHex_chars, bind, Except.bind, hlow, Literal.paired]

theorem readLowSurrogate_text (high : Nat) {gs : Literal}
    (h : ∀ v gs', gs = .unit v :: gs' → isLowSurrogate v.value = false) :
    ∃ f, readLowSurrogate high (gs.text rest) = .error f := by
  cases gs with
  | nil => exact ⟨_, rfl⟩
  | cons g gs =>
    rw [Literal.text_cons]
    cases g with
    | plain c hc =>
      rw [Glyph.chars, List.singleton_append]
      unfold readLowSurrogate
      split
      · exact ⟨_, rfl⟩
      · rename_i heq
        exact absurd (List.cons.inj heq).1 hc.2.1
      · exact ⟨_, rfl⟩
    | short e c he =>
      simp only [Glyph.chars, List.cons_append, List.nil_append, readLowSurrogate]
      split
      · exact ⟨_, rfl⟩
      · rename_i heq
        exact absurd (List.cons.inj heq).1 (ne_u_of_short he)
      · exact ⟨_, rfl⟩
    | unit v =>
      simp only [Glyph.chars, List.cons_append, readLowSurrogate, readHex_chars, bind, Except.bind,
        h v gs rfl, Bool.false_eq_true, if_false]
      exact ⟨_, rfl⟩

theorem readText_plain {c : Char} (h : c ≠ '\x22' ∧ c ≠ '\\' ∧ ¬c < ' ') (t : List Char) :
    readText 0 (c :: t) = (readText 0 t).map fun p => (c :: p.1, p.2) := by
  rw [readText]
  simp only [beq_iff_eq, h, if_false]
  cases readText 0 t <;> rfl

theorem readText_of_readEscape_error {t : List Char} (h : ∃ f, readEscape t = .error f) :
    ∃ f, readText 0 ('\\' :: t) = .error f := by
  obtain ⟨f, hf⟩ := h
  refine ⟨f, ?_⟩
  rw [readText]
  simp only [hf]
  rfl

theorem map_cons_eq_ok {read : Read (List Char)} {o : Option (List Char)}
    (h : ∀ cs r, read = .ok (cs, r) ↔ o = some cs ∧ r = rest) (c : Char) :
    (read.map fun p => (c :: p.1, p.2)) = .ok (cs, r) ↔ o.map (c :: ·) = some cs ∧ r = rest := by
  cases read with
  | error f =>
    have hnone : o = none := by
      rw [Option.eq_none_iff_forall_not_mem]
      intro a ha
      simpa using (h a rest).mpr ⟨ha, rfl⟩
    simp [Except.map, hnone]
  | ok p =>
    obtain ⟨ds, t⟩ := p
    obtain ⟨rfl, rfl⟩ := (h ds t).mp rfl
    simp [Except.map, eq_comm]

theorem readText_alone {u : CodeUnit} {gs : Literal} (hlow : isLowSurrogate u.value = false)
    (hhigh : isHighSurrogate u.value = true)
    (h : ∀ v gs', gs = .unit v :: gs' → isLowSurrogate v.value = false) :
    readText 0 (Literal.text (.unit u :: gs) rest) = .ok (cs, r) ↔
      Literal.chars? (.unit u :: gs) = some cs ∧ r = rest := by
  obtain ⟨f, hf⟩ : ∃ f, readLowSurrogate u.value (Literal.text gs rest) = .error f :=
    readLowSurrogate_text u.value h
  have hescape : ∃ f, readEscape ('u' :: (u.chars ++ Literal.text gs rest)) = .error f := by
    rw [readEscape_high hlow hhigh, hf]
    exact ⟨f, rfl⟩
  obtain ⟨g, hg⟩ := readText_of_readEscape_error hescape
  rw [Literal.text_cons, Glyph.chars, List.cons_append, List.cons_append, hg,
    Literal.chars?_alone hlow hhigh h]
  simp

/-- A string is read to its end, if its surrogates are in pairs. -/
theorem readText_text (gs : Literal) :
    readText 0 (Literal.text gs rest) = .ok (cs, r) ↔ Literal.chars? gs = some cs ∧ r = rest := by
  induction gs using Literal.chars?.induct generalizing cs r with
  | case1 => simp [Literal.text, Literal.chars?, readText, eq_comm]
  | case2 c h gs ih =>
    rw [Literal.text_cons, Glyph.chars, List.singleton_append, readText_plain h, Literal.chars?]
    exact map_cons_eq_ok (fun _ _ => ih) c
  | case3 e c h gs ih =>
    rw [Literal.text_cons, Glyph.chars, List.cons_append, Literal.chars?,
      readText_escape (readEscape_short (ne_u_of_short h) h _)]
    exact map_cons_eq_ok (fun _ _ => ih) c
  | case4 u gs hlow =>
    obtain ⟨f, hf⟩ := readText_of_readEscape_error (readEscape_low hlow (Literal.text gs rest))
    rw [Literal.text_cons, Glyph.chars, List.cons_append, List.cons_append, hf,
      Literal.chars?_low hlow]
    simp
  | case5 u hlow hhigh v gs hv ih =>
    rw [Bool.not_eq_true] at hlow
    have hescape : readEscape ('u' :: (u.chars ++ '\\' :: 'u' :: v.chars) ++ Literal.text gs rest) =
        .ok (Literal.paired u.value v.value,
          ('u' :: (u.chars ++ '\\' :: 'u' :: v.chars)).length) := by
      rw [List.cons_append, List.append_assoc, readEscape_high hlow hhigh, List.cons_append,
        List.cons_append, readLowSurrogate_unit u.value hv]
      simp [Except.map, CodeUnit.chars]
    have hread := readText_escape hescape
    rw [Literal.chars?_pair hlow hhigh hv]
    simp only [Literal.text_cons, Glyph.chars, List.cons_append, List.append_assoc] at hread ⊢
    rw [hread]
    exact map_cons_eq_ok (fun _ _ => ih) _
  | case6 u hlow hhigh v gs hv =>
    exact readText_alone (by simpa using hlow) hhigh (by simpa using hv)
  | case7 u gs hlow hhigh hother =>
    exact readText_alone (by simpa using hlow) hhigh fun v gs' h => absurd h (hother v gs')
  | case8 u gs hlow hhigh ih =>
    rw [Bool.not_eq_true] at hlow hhigh
    have hread :=
      readText_escape (e := 'u' :: u.chars) (readEscape_unit hlow hhigh (Literal.text gs rest))
    rw [Literal.text_cons, Glyph.chars, List.cons_append, Literal.chars?_unit hlow hhigh, hread]
    exact map_cons_eq_ok (fun _ _ => ih) _

theorem readString_text (gs : Literal) {s : String} :
    readString (Literal.text gs rest) = .ok (s, r) ↔ Literal.value? gs = some s ∧ r = rest := by
  unfold readString Literal.value?
  cases hread : readText 0 (Literal.text gs rest) with
  | error f =>
    cases hchars : Literal.chars? gs with
    | none => simp [Except.map]
    | some cs =>
      rw [(readText_text gs).mpr ⟨hchars, rfl⟩] at hread
      cases hread
  | ok p =>
    obtain ⟨cs, t⟩ := p
    obtain ⟨hchars, rfl⟩ := (readText_text gs).mp hread
    simp [Except.map, hchars, eq_comm]

theorem exists_unit_of_readLowSurrogate {high : Nat} {t : List Char} {c : Char} {k : Nat}
    (h : readLowSurrogate high t = .ok (c, k)) :
    k = 6 ∧ ∃ v : CodeUnit, t = '\\' :: 'u' :: (v.chars ++ t.drop 6) := by
  unfold readLowSurrogate at h
  split at h
  · cases h
  · split at h
    · cases h
    · rename_i t
      cases hhex : readHex t with
      | error f => simp [hhex, bind, Except.bind] at h
      | ok n =>
        obtain ⟨v, hv, -⟩ := exists_codeUnit hhex
        simp only [hhex, bind, Except.bind] at h
        split at h
        · simp only [Except.ok.injEq, Prod.mk.injEq] at h
          exact ⟨h.2.symm, v, by rw [List.drop_succ_cons, List.drop_succ_cons, ← hv]⟩
        · cases h
    · cases h
  · cases h

theorem exists_glyphs_of_readEscape {t : List Char} {c : Char} {k : Nat}
    (h : readEscape t = .ok (c, k)) :
    ∃ gs : Literal, '\\' :: t = gs.flatMap Glyph.chars ++ t.drop k := by
  unfold readEscape at h
  split at h
  · cases h
  · rename_i t
    cases hhex : readHex t with
    | error f => simp [hhex, bind, Except.bind] at h
    | ok n =>
      obtain ⟨u, hu, -⟩ := exists_codeUnit hhex
      simp only [hhex, bind, Except.bind] at h
      split at h
      · cases h
      · split at h
        · cases hlow : readLowSurrogate n (t.drop 4) with
          | error f => simp [hlow] at h
          | ok p =>
            obtain ⟨hk, v, hv⟩ := exists_unit_of_readLowSurrogate (k := p.2) hlow
            simp only [hlow, hk, Except.ok.injEq, Prod.mk.injEq] at h
            refine ⟨[.unit u, .unit v], ?_⟩
            rw [List.drop_drop] at hv
            simp only [List.flatMap_cons, List.flatMap_nil, List.append_nil, Glyph.chars,
              List.cons_append, List.append_assoc, ← h.2, List.drop_succ_cons, ← hv, ← hu]
        · cases h
          refine ⟨[.unit u], ?_⟩
          simp only [List.flatMap_cons, List.flatMap_nil, List.append_nil, Glyph.chars,
            List.cons_append, List.drop_succ_cons, ← hu]
  · rename_i e t _
    split at h
    · rename_i d hd
      cases h
      exact ⟨[.short e _ hd], rfl⟩
    · cases h

theorem exists_literal_of_readText {t : List Char} {k : Nat} (h : readText k t = .ok (cs, r)) :
    ∃ gs : Literal, t.drop k = Literal.text gs r := by
  induction t generalizing k cs with
  | nil => cases h
  | cons c t ih =>
    cases k with
    | succ k => exact ih h
    | zero =>
      rw [readText] at h
      split at h
      · rename_i hquote
        cases h
        exact ⟨[], by rw [beq_iff_eq.mp hquote]; rfl⟩
      · rename_i hquote
        split at h
        · rename_i hbackslash
          split at h
          · cases h
          · rename_i d k hescape
            split at h
            · cases h
            · rename_i hread
              cases h
              obtain ⟨gs, hgs⟩ := exists_glyphs_of_readEscape hescape
              obtain ⟨gs', hgs'⟩ := ih hread
              refine ⟨gs ++ gs', ?_⟩
              rw [Literal.text, List.flatMap_append, List.append_assoc]
              rw [← Literal.text, ← hgs', ← hgs, beq_iff_eq.mp hbackslash]
              rfl
        · rename_i hbackslash
          split at h
          · cases h
          · rename_i hcontrol
            split at h
            · cases h
            · rename_i hread
              cases h
              obtain ⟨gs, hgs⟩ := ih hread
              refine ⟨.plain c ⟨?_, ?_, hcontrol⟩ :: gs, ?_⟩
              · simpa using hquote
              · simpa using hbackslash
              · rw [Literal.text_cons, ← hgs]
                rfl

theorem exists_literal_of_readString {t : List Char} {s : String} (h : readString t = .ok (s, r)) :
    ∃ gs : Literal, t = Literal.text gs r ∧ Literal.value? gs = some s := by
  have hread := h
  unfold readString at h
  cases hchars : readText 0 t with
  | error f => simp [hchars, Except.map] at h
  | ok p =>
    obtain ⟨gs, hgs⟩ := exists_literal_of_readText hchars
    simp only [hchars, Except.map, Except.ok.injEq, Prod.mk.injEq] at h
    rw [List.drop_zero, h.2] at hgs
    rw [hgs] at hread
    exact ⟨gs, hgs, ((readString_text gs).mp hread).1⟩

end HostReach.Json
