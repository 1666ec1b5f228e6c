import HostReach.Json.Record
import HostReach.Proofs.Json.Levels

/-!
Reading a record back from a printed object. The members fill the fields one after the other, in
whatever order they stand; one member that its field refuses is enough for the record to be refused.
-/
namespace HostReach.Json

variable {δ : Type} {s : Style} {levels : Nat}

/-- The field reads the printed value, and `put` is what that does to a draft. -/
def Field.Takes (field : Field δ) (s : Style) (levels : Nat) (v : Value) (put : δ → δ) : Prop :=
  ∀ depth rest, EndsNumber rest →
    field.read levels (s.gap ++ (v.write s depth ++ rest)) = .ok (put, rest)

def Field.Refuses (field : Field δ) (s : Style) (levels : Nat) (v : Value) : Prop :=
  ∀ depth rest, EndsNumber rest →
    ∃ f, field.read levels (s.gap ++ (v.write s depth ++ rest)) = .error f

namespace Shape

def field? (shape : Shape δ) (key : String) : Option (Field δ) :=
  shape.fields.find? fun f => f.key == key

/-- Members are read into a draft, each by a field that was still empty, until `final` holds of the
draft and the members that are left. -/
inductive Reaches (shape : Shape δ) (s : Style) (levels : Nat) (final : δ → Members → Prop) :
    δ → Members → Prop
  | here {d : δ} {ms : Members} (h : final d ms) : Reaches shape s levels final d ms
  | next {d : δ} {k : String} {v : Value} {ms : Members} {field : Field δ} {put : δ → δ}
      (hkey : shape.field? k = some field) (hempty : field.isFilled d = false)
      (hvalue : field.Takes s levels v put) (hrest : Reaches shape s levels final (put d) ms) :
      Reaches shape s levels final d (.cons k v ms)

def Fills (shape : Shape δ) (s : Style) (levels : Nat) (e : δ) : δ → Members → Prop :=
  shape.Reaches s levels fun d ms => d = e ∧ ms = .nil

def Refuses (shape : Shape δ) (s : Style) (levels : Nat) : δ → Members → Prop :=
  shape.Reaches s levels fun d ms => ∃ k v ns field, ms = .cons k v ns ∧
    shape.field? k = some field ∧ field.isFilled d = false ∧ field.Refuses s levels v

variable {shape : Shape δ}

theorem readMember_takes {d : δ} {k : String} {v : Value} {field : Field δ} {put : δ → δ}
    (hkey : shape.field? k = some field) (hempty : field.isFilled d = false)
    (hvalue : field.Takes s levels v put) {depth : Nat} {rest : List Char}
    (hrest : EndsNumber rest) :
    shape.readMember levels k d (':' :: (s.gap ++ (v.write s depth ++ rest))) =
      .ok (put d, rest) := by
  unfold field? at hkey
  unfold readMember
  rw [hkey]
  simp only [hempty, Bool.false_eq_true, if_false, readColon_colon, hvalue depth rest hrest]
  rfl

theorem readMember_refuses {d : δ} {k : String} {v : Value} {field : Field δ}
    (hkey : shape.field? k = some field) (hempty : field.isFilled d = false)
    (hvalue : field.Refuses s levels v) (depth : Nat) {rest : List Char}
    (hrest : EndsNumber rest) :
    ∃ f, shape.readMember levels k d (':' :: (s.gap ++ (v.write s depth ++ rest))) = .error f := by
  obtain ⟨f, hf⟩ := hvalue depth rest hrest
  refine ⟨f, ?_⟩
  unfold field? at hkey
  unfold readMember
  rw [hkey]
  simp only [hempty, Bool.false_eq_true, if_false, readColon_colon, hf]
  rfl

theorem readMembers_of_fills (hs : s.IsSpaced) {d e : δ} {k : String} {v : Value} {ms : Members}
    (hfills : shape.Fills s levels e d (.cons k v ms)) (hclose : shape.missing? e = none)
    {fuel depth : Nat} (rest : List Char) (hfuel : (ms.writeFrom s depth k v).length < fuel) :
    shape.readMembers fuel levels d (ms.writeFrom s depth k v ++ rest) = .ok (e, rest) := by
  induction fuel generalizing d k v ms with
  | zero => omega
  | succ fuel ih =>
    have hnext := ms.endsNumber_writeRest s depth rest
    cases hfills with
    | here h => cases h.2
    | next hkey hempty hvalue hrest =>
      rw [readMembers, readString_writeFrom]
      simp only [readMember_takes hkey hempty hvalue hnext]
      cases hrest with
      | here h =>
        obtain ⟨rfl, rfl⟩ := h
        simp only [Members.writeRest, List.append_assoc, List.singleton_append,
          nextMember_done (Style.isSpace_lineBreak hs depth), close, hclose]
      | @next _ l w ns _ _ hkey hempty hvalue hrest =>
        have hshorter := Members.length_writeFrom s depth k v (.cons l w ns)
        rw [Members.writeRest_cons] at hshorter ⊢
        simp only [List.length_append, List.length_cons] at hshorter
        simp only [List.cons_append, List.append_assoc,
          nextMember_more (Style.isSpace_lineBreak hs _)]
        exact ih (.next hkey hempty hvalue hrest) (by omega)

theorem readMembers_of_refuses (hs : s.IsSpaced) {d : δ} {k : String} {v : Value} {ms : Members}
    (hrefuses : shape.Refuses s levels d (.cons k v ms)) (fuel depth : Nat) (rest : List Char) :
    ∃ f, shape.readMembers fuel levels d (ms.writeFrom s depth k v ++ rest) = .error f := by
  induction fuel generalizing d k v ms with
  | zero => exact ⟨_, rfl⟩
  | succ fuel ih =>
    have hnext := ms.endsNumber_writeRest s depth rest
    rw [readMembers, readString_writeFrom]
    cases hrefuses with
    | here h =>
      obtain ⟨_, _, _, field, hms, hkey, hempty, hvalue⟩ := h
      cases hms
      obtain ⟨f, hf⟩ := readMember_refuses hkey hempty hvalue (depth + 1) hnext
      exact ⟨f, by simp only [hf]⟩
    | next hkey hempty hvalue hrest =>
      simp only [readMember_takes hkey hempty hvalue hnext]
      cases ms with
      | nil =>
        cases hrest with
        | here h =>
          obtain ⟨_, _, _, _, hms, -⟩ := h
          cases hms
      | cons l w ns =>
        obtain ⟨f, hf⟩ := ih hrest
        refine ⟨f, ?_⟩
        simp only [Members.writeRest_cons, List.cons_append, List.append_assoc,
          nextMember_more (Style.isSpace_lineBreak hs _), hf]

theorem read_write (hs : s.IsSpaced) {empty e : δ} {ms : Members}
    (hfills : shape.Fills s levels e empty ms) (hclose : shape.missing? e = none) (depth : Nat)
    (rest : List Char) :
    shape.read empty (levels + 1) ((Value.object ms).write s depth ++ rest) = .ok (e, rest) := by
  cases ms with
  | nil =>
    have hend : empty = e := by
      cases hfills with
      | here h => exact h.1
    unfold read close
    rw [Value.write, List.cons_append, skipSpace_cons (by decide)]
    simp only [List.singleton_append, firstMember, hend, hclose,
      skipSpace_cons (show isSpace '\x7d' = false by decide)]
  | cons k v ms =>
    unfold read
    rw [Value.write_object_cons, List.cons_append, skipSpace_cons (by decide)]
    simp only [List.append_assoc, List.cons_append,
      firstMember_more (Style.isSpace_lineBreak hs _)]
    refine readMembers_of_fills hs hfills hclose rest ?_
    rw [List.length_append]
    omega

theorem read_write_of_refuses (hs : s.IsSpaced) {empty : δ} {ms : Members}
    (hrefuses : shape.Refuses s levels empty ms) (depth : Nat) (rest : List Char) :
    ∃ f, shape.read empty (levels + 1) ((Value.object ms).write s depth ++ rest) = .error f := by
  cases ms with
  | nil =>
    cases hrefuses with
    | here h =>
      obtain ⟨_, _, _, _, hms, -⟩ := h
      cases hms
  | cons k v ms =>
    unfold read
    rw [Value.write_object_cons, List.cons_append, skipSpace_cons (by decide)]
    simp only [List.append_assoc, List.cons_append,
      firstMember_more (Style.isSpace_lineBreak hs _)]
    exact readMembers_of_refuses hs hrefuses _ depth rest

end Shape

theorem readInt_write {n low high : Int} (hn : (Value.int n).isIntegral) (hlow : low ≤ n)
    (hhigh : n ≤ high) (expected : String) (depth : Nat) {rest : List Char}
    (hrest : EndsNumber rest) :
    readInt expected low high (s.gap ++ ((Value.int n).write s depth ++ rest)) = .ok (n, rest) := by
  have hwithin : (decide (low ≤ n) && decide (n ≤ high)) = true := by
    rw [Bool.and_eq_true, decide_eq_true_eq, decide_eq_true_eq]
    exact ⟨hlow, hhigh⟩
  simp only [Value.isIntegral, Bool.and_eq_true, decide_eq_true_eq] at hn
  unfold readInt
  rw [skipSpace_append s.isSpace_gap]
  cases n with
  | ofNat n =>
    obtain ⟨c, ds, hds, hc⟩ := digits_eq_cons n
    have hlt : n < Nat.pow 2 64 := by
      rw [Int.ofNat_eq_natCast] at hn
      omega
    have hread := readNumber_digits hrest (ofInteger_digits hlt)
    rw [write_int_ofNat]
    rw [hds, List.cons_append] at hread ⊢
    rw [skipSpace_cons (isSpace_of_isDigit hc)]
    split
    · rename_i heq
      cases heq
    · rename_i heq
      cases heq
      exact absurd rfl (ne_of_isDigit hc (d := '-') rfl)
    · rename_i heq
      cases heq
      simp only [hc, if_true, hread, Number.within]
      exact if_pos hwithin
  | negSucc n =>
    have hread := readNumber_digits hrest
      (ofInteger_digits_negative (show n + 1 ≠ 0 by omega) (show n + 1 ≤ Nat.pow 2 63 by omega))
    rw [write_int_negSucc, List.cons_append, skipSpace_cons (by decide)]
    have hcast : -((n + 1 : Nat) : Int) = Int.negSucc n := rfl
    simp only [hread, Number.within, hcast]
    exact if_pos hwithin

theorem readBool_write (b : Bool) (depth : Nat) (rest : List Char) :
    readBool (s.gap ++ ((Value.bool b).write s depth ++ rest)) = .ok (b, rest) := by
  unfold readBool
  rw [skipSpace_append s.isSpace_gap]
  cases b <;> rfl

theorem readTextOf_gap (expected : String) (t : List Char) :
    readTextOf expected (s.gap ++ t) = readTextOf expected t := by
  unfold readTextOf
  rw [skipSpace_append s.isSpace_gap]

theorem readTextOf_write (t expected : String) (depth : Nat) (rest : List Char) :
    readTextOf expected ((Value.text t).write s depth ++ rest) = .ok (t, rest) := by
  unfold readTextOf
  simp only [Value.write, quotedText, List.cons_append, List.append_assoc, List.nil_append,
    skipSpace_cons (show isSpace '\x22' = false by decide)]
  exact readString_flatMap_escaped t rest

theorem readOptional_null {α : Type} (reader : List Char → Read α) (depth : Nat)
    (rest : List Char) :
    readOptional reader (s.gap ++ (Value.null.write s depth ++ rest)) = .ok (none, rest) := by
  unfold readOptional
  rw [skipSpace_append s.isSpace_gap]
  rfl

theorem readOptional_write {α : Type} {reader : List Char → Read α} {v : Value}
    (hv : v.isIntegral) (hnull : v ≠ .null) {depth : Nat} {rest : List Char} :
    readOptional reader (s.gap ++ (v.write s depth ++ rest)) =
      (reader (v.write s depth ++ rest)).map fun p => (some p.1, p.2) := by
  obtain ⟨c, t, hc, hspace, -, hn⟩ := Value.write_eq_cons hv s depth
  unfold readOptional
  rw [skipSpace_append s.isSpace_gap, hc, List.cons_append, skipSpace_cons hspace]
  split
  · rename_i heq
    cases heq
    exact absurd rfl (hn hnull)
  · rfl

theorem length_le_fuelFor (w rest : List Char) : 2 * w.length ≤ fuelFor (w ++ rest) := by
  unfold fuelFor
  rw [List.length_append]
  omega

theorem read_write (hs : s.IsSpaced) {v : Value} (hv : v.isIntegral) (hlevels : v.depth ≤ levels)
    {depth : Nat} {rest : List Char} (hrest : EndsNumber rest) :
    read levels (v.write s depth ++ rest) = .ok (v, rest) := by
  unfold read
  exact v.readsBack hs hv _ _ _ _ hrest hlevels (length_le_fuelFor _ _)

theorem read_write_of_too_deep (hs : s.IsSpaced) {v : Value} (hv : v.isIntegral)
    (hlevels : levels < v.depth) (depth : Nat) {rest : List Char} (hrest : EndsNumber rest) :
    ∃ f, read levels (v.write s depth ++ rest) = .error f := by
  unfold read
  exact readValue_write_of_too_deep hs hv depth hrest hlevels (length_le_fuelFor _ _)

end HostReach.Json
