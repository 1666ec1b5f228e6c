import HostReach.Proofs.Json.ReadBack
import HostReach.Proofs.Json.Tidy
import HostReach.Proofs.Text.Occurrence

/-!
Where a phrase can stand in the text of a JSON value. A phrase that begins with a capital letter and
needs no escapes stands there only inside a string or a key that contains it: outside of strings
there are no capital letters, no escape has one, and a quote ends it.
-/
namespace HostReach.Json

open Chars

mutual

/-- Whether a string or a key in the value contains the phrase. -/
def Value.mentions (w : String) : Value → Bool
  | .text s => Text.contains s w
  | .array vs => vs.mentions w
  | .object ms => ms.mentions w
  | _ => false

def Values.mentions (w : String) : Values → Bool
  | .nil => false
  | .cons v vs => v.mentions w || vs.mentions w

def Members.mentions (w : String) : Members → Bool
  | .nil => false
  | .cons k v ms => Text.contains k w || v.mentions w || ms.mentions w

end

def IsCapital (c : Char) : Prop := 'A' ≤ c ∧ c ≤ 'Z'

instance (c : Char) : Decidable (IsCapital c) := inferInstanceAs (Decidable (_ ∧ _))

theorem forall_mem_of_all {p : Char → Prop} [DecidablePred p] {s : List Char}
    (h : (s.all fun c => decide (p c)) = true) : ∀ c ∈ s, p c :=
  fun c hc => of_decide_eq_true (List.all_eq_true.mp h c hc)

/-- The phrase begins with a capital letter and is printed as it is. -/
structure Phrase where
  first : Char
  others : List Char
  isCapital : IsCapital first
  escaped_eq : ∀ c ∈ first :: others, escaped c = [c]

namespace Phrase

def chars (w : Phrase) : List Char := w.first :: w.others

def text (w : Phrase) : String := String.ofList w.chars

variable (w : Phrase) {t : List Char}

theorem first_ne {c : Char} (hc : ¬IsCapital c) : w.first ≠ c := by
  intro h
  exact hc (h ▸ w.isCapital)

theorem occursIn_append {u : List Char} (hu : ∀ c ∈ u, ¬IsCapital c) (t : List Char) :
    occursIn w.chars (u ++ t) = occursIn w.chars t := by
  induction u with
  | nil => rfl
  | cons c u ih =>
    have hprefix : w.chars.isPrefixOf (c :: (u ++ t)) = false := by
      simp [chars, List.isPrefixOf, w.first_ne (hu c (by simp))]
    rw [List.cons_append, occursIn, hprefix, Bool.false_or, ih fun d hd => hu d (by simp [hd])]

theorem not_mem_of_escaped {c : Char} (hc : escaped c ≠ [c]) :
    c ∉ w.chars := fun h => hc (w.escaped_eq c h)

end Phrase

theorem not_isCapital_hexDigit {n : Nat} (h : n < 16) : ¬IsCapital (hexDigit n) := by
  have hall : ∀ m : Fin 16, ¬IsCapital (hexDigit m) := by decide
  exact hall ⟨n, h⟩

theorem exists_escape {c : Char} (hc : escaped c ≠ [c]) :
    ∃ e, escaped c = '\\' :: e ∧ ∀ d ∈ e, ¬IsCapital d := by
  have short {d : Char} (hd : ¬IsCapital d) : ∀ b ∈ [d], ¬IsCapital b := by simpa using hd
  revert hc
  unfold escaped
  split
  · rename_i h
    simp only [Bool.or_eq_true, beq_iff_eq] at h
    rcases h with rfl | rfl
    · exact fun _ => ⟨_, rfl, short (by decide)⟩
    · exact fun _ => ⟨_, rfl, short (by decide)⟩
  iterate 5
    split
    · exact fun _ => ⟨_, rfl, short (by decide)⟩
  split
  · rename_i hcontrol
    intro _
    refine ⟨_, rfl, ?_⟩
    have hc : c.toNat < 32 := hcontrol
    simp only [List.mem_cons, List.not_mem_nil, or_false, forall_eq_or_imp, forall_eq]
    exact ⟨by decide, by decide, by decide, not_isCapital_hexDigit (by omega),
      not_isCapital_hexDigit (by omega)⟩
  · exact fun h => absurd rfl h

theorem isPrefixOf_flatMap_escaped {w : List Char} (hw : ∀ c ∈ w, escaped c = [c]) (s : List Char) :
    w.isPrefixOf (s.flatMap escaped) = w.isPrefixOf s := by
  induction w generalizing s with
  | nil => simp [List.isPrefixOf]
  | cons d w ih =>
    cases s with
    | nil => rfl
    | cons c s =>
      have hd := hw d (by simp)
      rw [List.flatMap_cons]
      by_cases hc : escaped c = [c]
      · rw [hc, List.singleton_append, List.isPrefixOf, List.isPrefixOf,
          ih fun b hb => hw b (by simp [hb])]
      · obtain ⟨e, he, -⟩ := exists_escape hc
        have hbackslash : d ≠ '\\' := by
          rintro rfl
          exact absurd hd (by decide)
        have hdc : d ≠ c := by
          rintro rfl
          exact hc hd
        rw [he, List.cons_append, List.isPrefixOf, List.isPrefixOf, beq_false_of_ne hbackslash,
          beq_false_of_ne hdc, Bool.false_and, Bool.false_and]

theorem Phrase.occursIn_flatMap_escaped (w : Phrase) (s : List Char) :
    occursIn w.chars (s.flatMap escaped) = occursIn w.chars s := by
  induction s with
  | nil => rfl
  | cons c s ih =>
    by_cases hc : escaped c = [c]
    · have hprefix := isPrefixOf_flatMap_escaped w.escaped_eq (c :: s)
      rw [List.flatMap_cons, hc, List.singleton_append] at hprefix ⊢
      rw [occursIn, occursIn, ih]
      exact congrArg (· || _) hprefix
    · obtain ⟨e, he, hcapital⟩ := exists_escape hc
      have hprefix : w.chars.isPrefixOf (c :: s) = false := by
        have hfirst : w.first ≠ c := fun h => w.not_mem_of_escaped hc (by simp [chars, h])
        simp [chars, List.isPrefixOf, hfirst]
      have hescape : ∀ d ∈ escaped c, ¬IsCapital d := by
        rw [he]
        simpa using ⟨by decide, hcapital⟩
      rw [List.flatMap_cons, w.occursIn_append hescape, ih, occursIn, hprefix, Bool.false_or]

theorem Phrase.occursIn_quotedText (w : Phrase) (s : String) (rest : List Char) :
    occursIn w.chars (quotedText s ++ rest) =
      (Text.contains s w.text || occursIn w.chars rest) := by
  have hquote : '\x22' ∉ w.chars := w.not_mem_of_escaped (by decide)
  have hopen : occursIn w.chars (quotedText s ++ rest) =
      occursIn w.chars (s.toList.flatMap escaped ++ '\x22' :: rest) := by
    simpa [quotedText] using w.occursIn_append (u := ['\x22']) (forall_mem_of_all rfl) _
  rw [hopen, occursIn_eq_occursAsWord, occursAsWord_append_cons (by simp [chars]) hquote rfl,
    ← occursIn_eq_occursAsWord, ← occursIn_eq_occursAsWord, w.occursIn_flatMap_escaped,
    Text.contains, text,
    String.toList_ofList]

variable {s : Style}

theorem not_isCapital_of_isDigit {c : Char} (hc : Decimal.isDigit c = true) : ¬IsCapital c := by
  simp only [Decimal.isDigit, Bool.and_eq_true, decide_eq_true_eq] at hc
  intro h
  exact absurd (Char.le_trans h.1 hc.2) (by decide)

theorem not_isCapital_of_isSpace {c : Char} (hc : isSpace c = true) : ¬IsCapital c := by
  simp only [isSpace, Bool.or_eq_true, beq_iff_eq] at hc
  rcases hc with ((rfl | rfl) | rfl) | rfl <;> decide

theorem not_isCapital_write_int (n : Int) (depth : Nat) :
    ∀ c ∈ (Value.int n).write s depth, ¬IsCapital c := by
  cases n with
  | ofNat n =>
    rw [write_int_ofNat]
    exact fun c hc => not_isCapital_of_isDigit (Decimal.isDigit_of_mem_digits hc)
  | negSucc n =>
    rw [write_int_negSucc]
    intro c hc
    rcases List.mem_cons.mp hc with rfl | hc
    · decide
    · exact not_isCapital_of_isDigit (Decimal.isDigit_of_mem_digits hc)

namespace Phrase

variable (w : Phrase)

theorem occursIn_lineBreak (hs : s.IsSpaced) (depth : Nat) (t : List Char) :
    occursIn w.chars (s.lineBreak depth ++ t) = occursIn w.chars t :=
  w.occursIn_append (fun c hc => not_isCapital_of_isSpace (Style.isSpace_lineBreak hs depth c hc)) t

theorem occursIn_cons {c : Char} (hc : ¬IsCapital c) (t : List Char) :
    occursIn w.chars (c :: t) = occursIn w.chars t :=
  w.occursIn_append (u := [c]) (by simpa using hc) t

theorem occursIn_colon (t : List Char) : occursIn w.chars (s.colon ++ t) = occursIn w.chars t := by
  cases s with
  | compact => exact w.occursIn_append (u := [':']) (forall_mem_of_all rfl) t
  | indented unit => exact w.occursIn_append (u := [':', ' ']) (forall_mem_of_all rfl) t

mutual

theorem occursIn_write (hs : s.IsSpaced) : (v : Value) → v.isWhole → (depth : Nat) →
    (rest : List Char) →
    occursIn w.chars (v.write s depth ++ rest) = (v.mentions w.text || occursIn w.chars rest)
  | .null, _, _, rest => w.occursIn_append (u := ['n', 'u', 'l', 'l']) (forall_mem_of_all rfl) rest
  | .bool true, _, _, rest =>
    w.occursIn_append (u := ['t', 'r', 'u', 'e']) (forall_mem_of_all rfl) rest
  | .bool false, _, _, rest =>
    w.occursIn_append (u := ['f', 'a', 'l', 's', 'e']) (forall_mem_of_all rfl) rest
  | .int n, _, depth, rest => w.occursIn_append (not_isCapital_write_int n depth) rest
  | .real _, h, _, rest =>
    eq_of_beq h ▸ w.occursIn_append (u := ['-', '0', '.', '0']) (forall_mem_of_all rfl) rest
  | .text t, _, depth, rest => w.occursIn_quotedText t rest
  | .array .nil, _, _, rest => w.occursIn_append (u := ['[', ']']) (forall_mem_of_all rfl) rest
  | .object .nil, _, _, rest =>
    w.occursIn_append (u := ['\x7b', '\x7d']) (forall_mem_of_all rfl) rest
  | .array (.cons v vs), h, depth, rest => by
    simp only [Value.isWhole, Values.isWhole, Bool.and_eq_true] at h
    simp only [Value.write, List.cons_append, List.append_assoc]
    rw [w.occursIn_cons (by decide), w.occursIn_lineBreak hs, occursIn_write hs v h.1,
      occursIn_writeRest hs vs h.2, Value.mentions, Values.mentions, Bool.or_assoc]
  | .object (.cons k v ms), h, depth, rest => by
    simp only [Value.isWhole, Members.isWhole, Bool.and_eq_true] at h
    simp only [Value.write, List.cons_append, List.append_assoc]
    rw [w.occursIn_cons (by decide), w.occursIn_lineBreak hs, w.occursIn_quotedText,
      w.occursIn_colon, occursIn_write hs v h.1, occursIn_writeMembers hs ms h.2, Value.mentions,
      Members.mentions, Bool.or_assoc,
      Bool.or_assoc]

theorem occursIn_writeRest (hs : s.IsSpaced) : (vs : Values) → vs.isWhole → (depth : Nat) →
    (rest : List Char) →
    occursIn w.chars (vs.writeRest s depth ++ rest) = (vs.mentions w.text || occursIn w.chars rest)
  | .nil, _, depth, rest => by
    rw [Values.writeRest, List.append_assoc, w.occursIn_lineBreak hs, List.singleton_append,
      w.occursIn_cons (by decide), Values.mentions, Bool.false_or]
  | .cons v vs, h, depth, rest => by
    simp only [Values.isWhole, Bool.and_eq_true] at h
    simp only [Values.writeRest, List.cons_append, List.append_assoc]
    rw [w.occursIn_cons (by decide), w.occursIn_lineBreak hs, occursIn_write hs v h.1,
      occursIn_writeRest hs vs h.2, Values.mentions, Bool.or_assoc]

theorem occursIn_writeMembers (hs : s.IsSpaced) : (ms : Members) → ms.isWhole → (depth : Nat) →
    (rest : List Char) →
    occursIn w.chars (ms.writeRest s depth ++ rest) = (ms.mentions w.text || occursIn w.chars rest)
  | .nil, _, depth, rest => by
    rw [Members.writeRest, List.append_assoc, w.occursIn_lineBreak hs, List.singleton_append,
      w.occursIn_cons (by decide), Members.mentions, Bool.false_or]
  | .cons k v ms, h, depth, rest => by
    simp only [Members.isWhole, Bool.and_eq_true] at h
    simp only [Members.writeRest, List.cons_append, List.append_assoc]
    rw [w.occursIn_cons (by decide), w.occursIn_lineBreak hs, w.occursIn_quotedText,
      w.occursIn_colon, occursIn_write hs v h.1, occursIn_writeMembers hs ms h.2, Members.mentions,
      Bool.or_assoc, Bool.or_assoc]

end

end Phrase

end HostReach.Json
