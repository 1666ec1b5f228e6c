import HostReach.Json.Record
import HostReach.Proofs.Json.Completeness

/-!
Readers of one type read what the general reader reads, where the value is of their type: what they
refuse besides is a value of another type or out of their range.
-/
namespace HostReach.Json

variable {t u r : List Char} {levels : Nat} {α : Type}

/-- The reader reads the values that are accepted, as the general reader does, and nothing else. -/
def Reads (reader : Nat → List Char → Read α) (accept : Value → Option α) : Prop :=
  ∀ levels t a r, reader levels t = .ok (a, r) ↔ ∃ x, read levels t = .ok (x, r) ∧ accept x = some a

def Value.bool? : Value → Option Bool
  | .bool b => some b
  | _ => none

def Value.intWithin? (low high : Int) : Value → Option Int
  | .int n => if low ≤ n && n ≤ high then some n else none
  | _ => none

def Value.optional? (accept : Value → Option α) : Value → Option (Option α)
  | .null => some none
  | v => (accept v).map some

theorem treeAt_iff {v : Tree} : TreeAt t r v ↔ skipSpace t = v.chars r ∧ v.EndsAt r := by
  constructor
  · rintro ⟨⟨w, rfl⟩, hv⟩
    exact ⟨by rw [skipSpace_space, skipSpace_chars], hv⟩
  · rintro ⟨h, hv⟩
    exact treeAt_of_skipSpace h hv

theorem skipSpace_idem (t : List Char) : skipSpace (skipSpace t) = skipSpace t := by
  obtain ⟨w, hw⟩ := exists_space t
  have h := skipSpace_space w (skipSpace t)
  rw [← hw] at h
  exact h.symm

theorem read_skipSpace {x : Value} : read levels (skipSpace t) = .ok (x, r) ↔
    read levels t = .ok (x, r) := by
  simp only [read_eq_ok, treeAt_iff, skipSpace_idem]

theorem read_minus (h : skipSpace t = '-' :: u) :
    read levels t = (readNumber true u).map fun p => (p.1.value, p.2) := by
  unfold read fuelFor
  rw [readValue, h]
  rfl

theorem read_digit {c : Char} (hc : Decimal.isDigit c = true) (h : skipSpace t = c :: u) :
    read levels t = (readNumber false (c :: u)).map fun p => (p.1.value, p.2) := by
  unfold read fuelFor
  rw [← readValue_digit hc (2 * t.length + 1) levels, readValue, readValue, h, ← h,
    skipSpace_idem, h]

theorem read_quote (h : skipSpace t = '\x22' :: u) :
    read levels t = (readString u).map fun p => (.text p.1, p.2) := by
  unfold read fuelFor
  rw [readValue, h]
  rfl

theorem read_true (h : skipSpace t = 't' :: u) :
    read levels t = (readWord ['r', 'u', 'e'] u).map fun t => (.bool true, t) := by
  unfold read fuelFor
  rw [readValue, h]
  rfl

theorem read_false (h : skipSpace t = 'f' :: u) :
    read levels t = (readWord ['a', 'l', 's', 'e'] u).map fun t => (.bool false, t) := by
  unfold read fuelFor
  rw [readValue, h]
  rfl

theorem read_null (h : skipSpace t = 'n' :: u) :
    read levels t = (readWord ['u', 'l', 'l'] u).map fun t => (.null, t) := by
  unfold read fuelFor
  rw [readValue, h]
  rfl

theorem Tree.eq_null {v : Tree} (h : v.value? = some .null) : v = .null := by
  cases v with
  | null => rfl
  | number n =>
    obtain ⟨y, -, hy⟩ := Option.map_eq_some_iff.mp h
    cases y <;> cases hy
  | _ => simp [Tree.value?] at h

theorem Tree.eq_bool {v : Tree} {b : Bool} (h : v.value? = some (.bool b)) : v = .bool b := by
  cases v with
  | bool c =>
    cases h
    rfl
  | number n =>
    obtain ⟨y, -, hy⟩ := Option.map_eq_some_iff.mp h
    cases y <;> cases hy
  | _ => simp [Tree.value?] at h

theorem Tree.exists_numeral {v : Tree} {n : Int} (h : v.value? = some (.int n)) :
    ∃ m : Numeral, v = .number m ∧ m.value? = some (.int n) := by
  cases v with
  | number m =>
    obtain ⟨y, hy, hvalue⟩ := Option.map_eq_some_iff.mp h
    cases y <;> cases hvalue
    exact ⟨m, rfl, hy⟩
  | _ => simp [Tree.value?] at h

theorem Tree.exists_literal {v : Tree} {s : String} (h : v.value? = some (.text s)) :
    ∃ gs : Literal, v = .text gs ∧ Literal.value? gs = some s := by
  cases v with
  | text gs =>
    obtain ⟨s, hs, hvalue⟩ := Option.map_eq_some_iff.mp h
    cases hvalue
    exact ⟨gs, rfl, hs⟩
  | number n =>
    obtain ⟨y, -, hy⟩ := Option.map_eq_some_iff.mp h
    cases y <;> cases hy
  | _ => simp [Tree.value?] at h

theorem Value.bool?_eq_some {x : Value} {b : Bool} : x.bool? = some b ↔ x = .bool b := by
  cases x <;> simp [bool?]

theorem Value.text?_eq_some {x : Value} {s : String} : x.text? = some s ↔ x = .text s := by
  cases x <;> simp [text?]

theorem Value.intWithin?_eq_some {x : Value} {low high n : Int} :
    x.intWithin? low high = some n ↔ x = .int n ∧ low ≤ n ∧ n ≤ high := by
  cases x with
  | int m =>
    simp only [intWithin?, Bool.and_eq_true, decide_eq_true_eq, Option.ite_none_right_eq_some,
      Option.some.injEq, Value.int.injEq]
    constructor
    · rintro ⟨h, rfl⟩
      exact ⟨rfl, h⟩
    · rintro ⟨rfl, h⟩
      exact ⟨h, rfl⟩
  | _ => simp [intWithin?]

theorem Value.optional?_of_ne_null {x : Value} (h : x ≠ .null) (accept : Value → Option α) :
    x.optional? accept = (accept x).map some := by
  cases x with
  | null => exact absurd rfl h
  | _ => rfl

theorem Value.optional?_eq_some {x : Value} {accept : Value → Option α} {a : Option α} :
    x.optional? accept = some a ↔
    (x = .null ∧ none = a) ∨ x ≠ .null ∧ ∃ b, accept x = some b ∧ some b = a := by
  by_cases h : x = .null
  · subst h
    simp [optional?]
  · simp [optional?_of_ne_null h, h]

theorem readBool_eq_ok {b : Bool} :
    readBool t = .ok (b, r) ↔ ∃ x, read levels t = .ok (x, r) ∧ x.bool? = some b := by
  simp only [Value.bool?_eq_some]
  constructor
  · intro h
    unfold readBool at h
    split at h
    · cases h
    · rename_i ht
      obtain ⟨r, hword, hb⟩ := map_eq_ok.mp h
      cases hb
      exact ⟨_, by rw [read_true ht, hword, Except.map], rfl⟩
    · rename_i hf
      obtain ⟨r, hword, hb⟩ := map_eq_ok.mp h
      cases hb
      exact ⟨_, by rw [read_false hf, hword, Except.map], rfl⟩
    · cases h
  · rintro ⟨x, hread, rfl⟩
    obtain ⟨v, hv, hvalue, -⟩ := read_eq_ok.mp hread
    rw [Tree.eq_bool hvalue, treeAt_iff] at hv
    rw [readBool, hv.1]
    cases b <;> rfl

theorem readTextOf_eq_ok {expected s : String} :
    readTextOf expected t = .ok (s, r) ↔ ∃ x, read levels t = .ok (x, r) ∧ x.text? = some s := by
  simp only [Value.text?_eq_some]
  constructor
  · intro h
    unfold readTextOf at h
    split at h
    · cases h
    · rename_i hquote
      exact ⟨_, by rw [read_quote hquote, h, Except.map], rfl⟩
    · cases h
  · rintro ⟨x, hread, rfl⟩
    obtain ⟨v, hv, hvalue, -⟩ := read_eq_ok.mp hread
    obtain ⟨gs, rfl, hs⟩ := Tree.exists_literal hvalue
    rw [readTextOf, (treeAt_iff.mp hv).1]
    exact (readString_text gs).mpr ⟨hs, rfl⟩

theorem within_eq_ok {expected : String} {low high n : Int} {y : Number} {rest : List Char} :
    y.within expected low high rest = .ok (n, r) ↔
    y.value.intWithin? low high = some n ∧ rest = r := by
  cases y with
  | int m =>
    by_cases hm : (decide (low ≤ m) && decide (m ≤ high)) = true
    · simp [Number.within, Number.value, Value.intWithin?, hm]
    · simp [Number.within, Number.value, Value.intWithin?, hm]
  | real x => simp [Number.within, Number.value, Value.intWithin?]

theorem exists_read_of_number {negative : Bool} {u : List Char} {expected : String}
    {low high n : Int}
    (hread : read levels t = (readNumber negative u).map fun p => (p.1.value, p.2))
    (h : (match readNumber negative u with
      | .error f => .error f
      | .ok (y, rest) => y.within expected low high rest) = Except.ok (n, r)) :
    ∃ x, read levels t = .ok (x, r) ∧ x.intWithin? low high = some n := by
  split at h
  · cases h
  · rename_i hnumber
    obtain ⟨hvalue, rfl⟩ := within_eq_ok.mp h
    exact ⟨_, by rw [hread, hnumber, Except.map], hvalue⟩

theorem exists_read_of_readInt {expected : String} {low high n : Int}
    (h : readInt expected low high t = .ok (n, r)) :
    ∃ x, read levels t = .ok (x, r) ∧ x.intWithin? low high = some n := by
  unfold readInt at h
  split at h
  · cases h
  · rename_i hminus
    exact exists_read_of_number (read_minus hminus) h
  · rename_i hdigit
    split at h
    · rename_i hc
      exact exists_read_of_number (read_digit hc hdigit) h
    · cases h

theorem readInt_of_read {expected : String} {low high n : Int} {x : Value}
    (hread : read levels t = .ok (x, r)) (hx : x.intWithin? low high = some n) :
    readInt expected low high t = .ok (n, r) := by
  obtain ⟨rfl, -⟩ := Value.intWithin?_eq_some.mp hx
  obtain ⟨v, hv, hvalue, -⟩ := read_eq_ok.mp hread
  obtain ⟨m, rfl, hm⟩ := Tree.exists_numeral hvalue
  rw [treeAt_iff, Tree.chars, Numeral.text] at hv
  obtain ⟨hspace, hends⟩ := hv
  have hnumber : readNumber m.negative (m.unsigned r) = .ok (.int n, r) :=
    (readNumber_unsigned hends).mpr ⟨hm, rfl⟩
  have hwithin : Number.within expected low high r (.int n) = .ok (n, r) :=
    within_eq_ok.mpr ⟨hx, rfl⟩
  unfold readInt
  split at hspace
  · rename_i hneg
    rw [hneg] at hnumber
    simp only [hspace, hnumber, hwithin]
  · rename_i hneg
    have hdigit := m.whole.isDigit_first
    rw [Bool.not_eq_true] at hneg
    rw [Numeral.unsigned, Digits.chars, List.cons_append] at hspace hnumber
    rw [hneg] at hnumber
    rw [hspace]
    split
    · rename_i heq
      cases heq
    · rename_i heq
      exact absurd (List.cons.inj heq).1 (ne_of_isDigit hdigit rfl)
    · rename_i heq
      obtain ⟨rfl, rfl⟩ := List.cons.inj heq
      simp only [hdigit, if_true, hnumber, hwithin]

theorem readInt_eq_ok {expected : String} {low high n : Int} :
    readInt expected low high t = .ok (n, r) ↔
      ∃ x, read levels t = .ok (x, r) ∧ x.intWithin? low high = some n :=
  ⟨exists_read_of_readInt, fun ⟨_, hread, hx⟩ => readInt_of_read hread hx⟩

theorem exists_of_read_null (h : read levels t = .ok (.null, r)) :
    skipSpace t = 'n' :: 'u' :: 'l' :: 'l' :: r := by
  obtain ⟨v, hv, hvalue, -⟩ := read_eq_ok.mp h
  rw [Tree.eq_null hvalue, treeAt_iff] at hv
  exact hv.1

theorem readOptional_eq_ok {reader : Nat → List Char → Read α} {accept : Value → Option α}
    (h : Reads reader accept) {a : Option α} :
    readOptional (reader levels) t = .ok (a, r) ↔
      ∃ x, read levels t = .ok (x, r) ∧ x.optional? accept = some a := by
  unfold readOptional
  split
  · rename_i hn
    simp only [read_null hn, map_eq_ok]
    constructor
    · rintro ⟨r', hword, heq⟩
      cases heq
      exact ⟨.null, ⟨r, hword, rfl⟩, rfl⟩
    · rintro ⟨x, ⟨r', hword, heq⟩, hx⟩
      cases heq
      cases hx
      exact ⟨r, hword, rfl⟩
  · rename_i hn
    have hnull {x : Value} (hread : read levels t = .ok (x, r)) : x.optional? accept =
        (accept x).map some := by
      apply Value.optional?_of_ne_null
      rintro rfl
      exact hn _ (exists_of_read_null hread)
    simp only [map_eq_ok, Prod.exists, h levels, read_skipSpace]
    constructor
    · rintro ⟨b, r', ⟨x, hread, hx⟩, heq⟩
      cases heq
      exact ⟨x, hread, by rw [hnull hread, hx, Option.map_some]⟩
    · rintro ⟨x, hread, hx⟩
      rw [hnull hread] at hx
      obtain ⟨b, hb, rfl⟩ := Option.map_eq_some_iff.mp hx
      exact ⟨b, r, ⟨x, hread, hb⟩, rfl⟩

theorem reads_read : Reads read some := by
  intro levels t a r
  simp

theorem reads_int (expected : String) (low high : Int) :
    Reads (fun _ => readInt expected low high) (Value.intWithin? low high) :=
  fun _ _ _ _ => readInt_eq_ok

theorem reads_text (expected : String) : Reads (fun _ => readTextOf expected) Value.text? :=
  fun _ _ _ _ => readTextOf_eq_ok

theorem reads_bool : Reads (fun _ => readBool) Value.bool? := fun _ _ _ _ => readBool_eq_ok

theorem Reads.optional {reader : Nat → List Char → Read α} {accept : Value → Option α}
    (h : Reads reader accept) :
    Reads (fun levels => readOptional (reader levels)) (Value.optional? accept) :=
  fun _ _ _ _ => readOptional_eq_ok h

theorem Reads.map {β : Type} {reader : Nat → List Char → Read α} {accept : Value → Option α}
    (h : Reads reader accept) (f : α → β) :
    Reads (fun levels t => (reader levels t).map fun p => (f p.1, p.2)) fun v =>
      (accept v).map f := by
  intro levels t b r
  simp only [map_eq_ok, Prod.exists, h levels, Option.map_eq_some_iff]
  constructor
  · rintro ⟨a, _, ⟨x, hread, hx⟩, heq⟩
    cases heq
    exact ⟨x, hread, a, hx, rfl⟩
  · rintro ⟨x, hread, a, hx, rfl⟩
    exact ⟨a, r, ⟨x, hread, hx⟩, rfl⟩

end HostReach.Json
