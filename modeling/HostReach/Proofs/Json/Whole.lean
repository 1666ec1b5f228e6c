import HostReach.Proofs.Json.Completeness
import HostReach.Proofs.Json.Tidy

/-!
Texts whose numbers are integers of 64 bits, signed or not. Their values have whole numbers only,
and a text whose value has integers only is one of them.
-/
namespace HostReach.Json

def Numeral.isWhole (n : Numeral) : Bool :=
  n.fraction.isNone && n.exponent.isNone &&
    if n.negative then n.whole.value ≤ Nat.pow 2 63 else n.whole.value < Nat.pow 2 64

theorem eq_zero_of_valueOf {c : Char} (hc : Decimal.isDigit c = true)
    (h : Decimal.valueOf c = 0) : c = '0' := by
  have hle : 48 ≤ c.toNat := by
    rw [Decimal.isDigit, Bool.and_eq_true, decide_eq_true_eq] at hc
    exact hc.1
  apply Char.toNat_inj.mp
  rw [Decimal.valueOf] at h
  change c.toNat = 48
  omega

theorem Digits.chars_of_value_eq_zero {ds : Digits} (h : ds.value = 0)
    (hzero : ds.first = '0' → ds.others = []) :
    ds.chars = ['0'] := by
  have hle : 10 * 0 + Decimal.valueOf ds.first ≤ ds.value := le_foldl_digits ds.others _
  have hfirst : ds.first = '0' := eq_zero_of_valueOf ds.isDigit_first (by omega)
  rw [chars, hfirst, hzero hfirst]

theorem isWhole_ofInteger {n : Numeral} (h : n.isWhole) {x : Number}
    (hx : Number.ofInteger n.negative n.whole.chars = some x) : x.value.isWhole := by
  simp only [Numeral.isWhole, Bool.and_eq_true] at h
  obtain ⟨-, hrange⟩ := h
  cases x with
  | int i =>
    rcases Number.ofInteger_eq_int.mp hx with ⟨-, -, hrange, rfl⟩ | ⟨-, hrange, rfl⟩
    · simp only [Number.value, Value.isWhole, Bool.and_eq_true, decide_eq_true_eq,
        Nat.pow_eq] at hrange ⊢
      omega
    · simp only [Number.value, Value.isWhole, Bool.and_eq_true, decide_eq_true_eq,
        Nat.pow_eq] at hrange ⊢
      omega
  | real y =>
    cases hnegative : n.negative with
    | false =>
      simp only [hnegative, Bool.false_eq_true, if_false, decide_eq_true_eq] at hrange
      have hint := Number.ofInteger_eq_int.mpr (.inr ⟨hnegative, hrange, rfl⟩)
      rw [hx] at hint
      cases hint
    | true =>
      simp only [hnegative, if_true, decide_eq_true_eq] at hrange
      by_cases hzero : n.whole.value = 0
      · rw [hnegative, Digits.chars_of_value_eq_zero hzero n.noLeadingZero] at hx
        cases hx
        rfl
      · have hint := Number.ofInteger_eq_int.mpr (.inl ⟨hnegative, hzero, hrange, rfl⟩)
        rw [hx] at hint
        cases hint

theorem Numeral.isWhole_value {n : Numeral} (h : n.isWhole) {x : Number} (hx : n.value? = some x) :
    x.value.isWhole := by
  have hparts := h
  simp only [isWhole, Bool.and_eq_true, Option.isNone_iff_eq_none] at hparts
  rw [value?, hparts.1.1, hparts.1.2] at hx
  exact isWhole_ofInteger h hx

theorem Numeral.isWhole_of_isIntegral {n : Numeral} {x : Number} (hx : n.value? = some x)
    (h : x.value.isIntegral) : n.isWhole := by
  cases x with
  | real x => cases h
  | int i =>
    obtain ⟨hfraction, hexponent, ⟨hnegative, -, hrange, -⟩ | ⟨hnegative, hrange, -⟩⟩ :=
      value?_eq_int.mp hx
    · simp [isWhole, hfraction, hexponent, hnegative, hrange]
    · simp [isWhole, hfraction, hexponent, hnegative, hrange]

mutual

def Tree.isWhole : Tree → Bool
  | .number n => n.isWhole
  | .array _ es => es.isWhole
  | .object _ es => es.isWhole
  | _ => true

def Elements.isWhole : Elements → Bool
  | .last v _ => v.isWhole
  | .cons v _ _ es => v.isWhole && es.isWhole

def Entries.isWhole : Entries → Bool
  | .last _ _ _ v _ => v.isWhole
  | .cons _ _ _ v _ _ es => v.isWhole && es.isWhole

end

mutual

theorem Tree.isWhole_value : (t : Tree) → (x : Value) → t.value? = some x →
    (t.isWhole → x.isWhole) ∧ (x.isIntegral → t.isWhole)
  | .null, _, hx | .bool _, _, hx | .emptyArray _, _, hx | .emptyObject _, _, hx => by
    cases hx
    exact ⟨fun _ => rfl, fun _ => rfl⟩
  | .number n, _, hx => by
    obtain ⟨y, hy, rfl⟩ := Option.map_eq_some_iff.mp hx
    exact ⟨fun h => n.isWhole_value h hy, n.isWhole_of_isIntegral hy⟩
  | .text gs, _, hx => by
    obtain ⟨s, -, rfl⟩ := Option.map_eq_some_iff.mp hx
    exact ⟨fun _ => rfl, fun _ => rfl⟩
  | .array _ es, _, hx => by
    obtain ⟨vs, hvs, rfl⟩ := Option.map_eq_some_iff.mp hx
    exact es.isWhole_values vs hvs
  | .object _ es, _, hx => by
    obtain ⟨ms, hms, rfl⟩ := Option.map_eq_some_iff.mp hx
    exact es.isWhole_members ms hms

theorem Elements.isWhole_values : (es : Elements) → (vs : Values) → es.values? = some vs →
    (es.isWhole → vs.isWhole) ∧ (vs.isIntegral → es.isWhole)
  | .last v _, _, hvs => by
    obtain ⟨x, hx, rfl⟩ := Option.map_eq_some_iff.mp hvs
    simpa [Elements.isWhole, Values.isWhole, Values.isIntegral] using v.isWhole_value x hx
  | .cons v _ _ es, _, hvs => by
    obtain ⟨x, hx, hrest⟩ := Option.bind_eq_some_iff.mp hvs
    obtain ⟨xs, hxs, rfl⟩ := Option.map_eq_some_iff.mp hrest
    simp only [Elements.isWhole, Values.isWhole, Values.isIntegral, Bool.and_eq_true]
    exact ⟨And.imp (v.isWhole_value x hx).1 (es.isWhole_values xs hxs).1,
      And.imp (v.isWhole_value x hx).2 (es.isWhole_values xs hxs).2⟩

theorem Entries.isWhole_members : (es : Entries) → (ms : Members) → es.members? = some ms →
    (es.isWhole → ms.isWhole) ∧ (ms.isIntegral → es.isWhole)
  | .last _ _ _ v _, _, hms => by
    obtain ⟨k, -, hrest⟩ := Option.bind_eq_some_iff.mp hms
    obtain ⟨x, hx, rfl⟩ := Option.map_eq_some_iff.mp hrest
    simpa [Entries.isWhole, Members.isWhole, Members.isIntegral] using v.isWhole_value x hx
  | .cons _ _ _ v _ _ es, _, hms => by
    obtain ⟨k, -, hrest⟩ := Option.bind_eq_some_iff.mp hms
    obtain ⟨x, hx, hrest'⟩ := Option.bind_eq_some_iff.mp hrest
    obtain ⟨xs, hxs, rfl⟩ := Option.map_eq_some_iff.mp hrest'
    simp only [Entries.isWhole, Members.isWhole, Members.isIntegral, Bool.and_eq_true]
    exact ⟨And.imp (v.isWhole_value x hx).1 (es.isWhole_members xs hxs).1,
      And.imp (v.isWhole_value x hx).2 (es.isWhole_members xs hxs).2⟩

end

theorem Elements.isWhole_of_mem_trees {es : Elements} (h : es.isWhole) {v : Tree}
    (hv : v ∈ es.trees) : v.isWhole := by
  induction es using Elements.trees.induct with
  | case1 w after =>
    rw [trees, List.mem_singleton] at hv
    exact hv ▸ h
  | case2 w after before es ih =>
    rw [isWhole, Bool.and_eq_true] at h
    rcases List.mem_cons.mp hv with rfl | hv
    · exact h.1
    · exact ih h.2 hv

theorem Entries.isWhole_of_mem_trees {es : Entries} (h : es.isWhole) {v : Tree}
    (hv : v ∈ es.trees) : v.isWhole := by
  induction es using Entries.trees.induct with
  | case1 k beforeColon afterColon w after =>
    rw [trees, List.mem_singleton] at hv
    exact hv ▸ h
  | case2 k beforeColon afterColon w after before es ih =>
    rw [isWhole, Bool.and_eq_true] at h
    rcases List.mem_cons.mp hv with rfl | hv
    · exact h.1
    · exact ih h.2 hv

theorem Tree.isWhole_of_mem_children {t v : Tree} (h : t.isWhole) (hv : v ∈ t.children) :
    v.isWhole := by
  cases t with
  | array w es => exact es.isWhole_of_mem_trees h hv
  | object w es => exact es.isWhole_of_mem_trees h hv
  | _ => cases hv

/-- However the text is taken apart as JSON, its numbers are whole. -/
def IsWhole (s : String) : Prop := ∀ d : Document, d.text = s → d.tree.isWhole

theorem isWhole_of_ofText {s : String} {x : Value} (h : Json.ofText s = .ok x) (hx : x.isIntegral) :
    IsWhole s := by
  rintro d rfl
  obtain ⟨w, hread⟩ := finish_eq_ok.mp h
  rw [Document.text, String.toList_ofList] at hread
  have hvalue := ((read_chars d.before (treeAt_document d).2).mp hread).1
  exact (d.tree.isWhole_value x hvalue).2 hx

end HostReach.Json
