import HostReach.Proofs.Json.Normal

/-!
What sorting makes of a value: its objects are sorted, it nests no deeper than before, and whole
numbers stay whole. Minus zero counts as whole though it is binary64, for it is what an integer
literal stands for.
-/
namespace HostReach.Json

mutual

/-- Whether every number is what an integer literal of 64 bits, signed or not, stands for. -/
def Value.isWhole : Value → Bool
  | .int n => -Nat.pow 2 63 ≤ n && n < Nat.pow 2 64
  | .real x => x == .zero true
  | .array vs => vs.isWhole
  | .object ms => ms.isWhole
  | _ => true

def Values.isWhole : Values → Bool
  | .nil => true
  | .cons v vs => v.isWhole && vs.isWhole

def Members.isWhole : Members → Bool
  | .nil => true
  | .cons _ v ms => v.isWhole && ms.isWhole

end

/-- The value is sorted, its numbers are whole and it nests at most `n` deep. -/
structure Value.IsTidy (n : Nat) (v : Value) : Prop where
  isSorted : v.isSorted
  isWhole : v.isWhole
  depth_le : v.depth ≤ n

theorem Values.tidy_of_forall {n : Nat} {vs : Values} (h : ∀ v ∈ vs.toList, v.IsTidy n) :
    vs.isSorted = true ∧ vs.isWhole = true ∧ vs.depth ≤ n := by
  induction vs using Values.toList.induct with
  | case1 => exact ⟨rfl, rfl, Nat.zero_le n⟩
  | case2 v vs ih =>
    rw [toList, List.forall_mem_cons] at h
    obtain ⟨hv, hrest⟩ := h
    obtain ⟨hsorted, hwhole, hdepth⟩ := ih hrest
    exact ⟨by rw [isSorted, hv.isSorted, hsorted]; rfl, by rw [isWhole, hv.isWhole, hwhole]; rfl,
      Nat.max_le.mpr ⟨hv.depth_le, hdepth⟩⟩

theorem Members.tidy_of_forall {n : Nat} {ms : Members} (h : ∀ p ∈ ms.toList, p.2.IsTidy n) :
    ms.isSorted = true ∧ ms.isWhole = true ∧ ms.depth ≤ n := by
  induction ms using Members.toList.induct with
  | case1 => exact ⟨rfl, rfl, Nat.zero_le n⟩
  | case2 k v ms ih =>
    rw [toList, List.forall_mem_cons] at h
    obtain ⟨hv, hrest⟩ := h
    obtain ⟨hsorted, hwhole, hdepth⟩ := ih hrest
    exact ⟨by rw [isSorted, hv.isSorted, hsorted]; rfl, by rw [isWhole, hv.isWhole, hwhole]; rfl,
      Nat.max_le.mpr ⟨hv.depth_le, hdepth⟩⟩

theorem isTidy_array {n : Nat} {vs : Values} (h : ∀ v ∈ vs.toList, v.IsTidy n) :
    (Value.array vs).IsTidy (n + 1) := by
  obtain ⟨hsorted, hwhole, hdepth⟩ := Values.tidy_of_forall h
  exact ⟨hsorted, hwhole, Nat.succ_le_succ hdepth⟩

theorem isTidy_object {n : Nat} {ms : Members} (hkeys : ms.keys.Pairwise (· < ·))
    (h : ∀ p ∈ ms.toList, p.2.IsTidy n) : (Value.object ms).IsTidy (n + 1) := by
  obtain ⟨hsorted, hwhole, hdepth⟩ := Members.tidy_of_forall h
  refine ⟨?_, hwhole, Nat.succ_le_succ hdepth⟩
  rw [Value.isSorted, hsorted, Bool.and_true, decide_eq_true_eq]
  exact hkeys

namespace Members

theorem toList_ofList (kvs : List (String × Value)) : (ofList kvs).toList = kvs := by
  induction kvs with
  | nil => rfl
  | cons p kvs ih => rw [ofList, toList, ih]

theorem mem_toList_insert {ms : Members} {k : String} {v : Value} {p : String × Value}
    (h : p ∈ (ms.insert k v).toList) : p = (k, v) ∨ p ∈ ms.toList := by
  induction ms using toList.induct with
  | case1 => simpa [insert, toList] using h
  | case2 l w ms ih =>
    rw [insert] at h
    split at h
    · simp only [toList, List.mem_cons] at h ⊢
      exact h.imp_right .inr
    · split at h
      · simpa only [toList, List.mem_cons] using h
      · simp only [toList, List.mem_cons] at h ⊢
        rcases h with h | h
        · exact .inr (.inl h)
        · exact (ih h).imp_right .inr

theorem mem_keys_insert {ms : Members} {k l : String} {v : Value} (h : l ∈ (ms.insert k v).keys) :
    l = k ∨ l ∈ ms.keys := by
  obtain ⟨p, hp, rfl⟩ := List.mem_map.mp h
  rcases mem_toList_insert hp with rfl | hp
  · exact .inl rfl
  · exact .inr (List.mem_map_of_mem hp)

theorem keys_cons (k : String) (v : Value) (ms : Members) : (cons k v ms).keys = k :: ms.keys := rfl

theorem pairwise_keys_insert {ms : Members} (k : String) (v : Value)
    (h : ms.keys.Pairwise (· < ·)) :
    (ms.insert k v).keys.Pairwise (· < ·) := by
  induction ms using toList.induct with
  | case1 => simp [insert, keys, toList]
  | case2 l w ms ih =>
    rw [keys_cons, List.pairwise_cons] at h
    rw [insert]
    split
    · rename_i heq
      rw [keys_cons, List.pairwise_cons, heq]
      exact h
    · rename_i hne
      split
      · rename_i hlt
        rw [keys_cons, keys_cons, List.pairwise_cons, List.pairwise_cons]
        refine ⟨fun j hj => ?_, h⟩
        rcases List.mem_cons.mp hj with rfl | hj
        · exact hlt
        · exact String.lt_trans hlt (h.1 j hj)
      · rename_i hlt
        rw [keys_cons, List.pairwise_cons]
        refine ⟨fun j hj => ?_, ih h.2⟩
        rcases mem_keys_insert hj with rfl | hj
        · exact Std.lt_of_le_of_ne (String.not_lt.mp hlt) (Ne.symm hne)
        · exact h.1 j hj

end Members

mutual

theorem Value.isTidy_normal : (v : Value) → (n : Nat) → v.isWhole → v.depth ≤ n → v.normal.IsTidy n
  | .null, _, h, hdepth | .bool _, _, h, hdepth | .int _, _, h, hdepth | .real _, _, h, hdepth
  | .text _, _, h, hdepth => ⟨rfl, h, hdepth⟩
  | .array _, 0, _, hdepth | .object _, 0, _, hdepth => by simp [Value.depth] at hdepth
  | .array vs, n + 1, h, hdepth =>
    isTidy_array (vs.isTidy_normal n h (Nat.le_of_succ_le_succ hdepth))
  | .object ms, n + 1, h, hdepth => by
    obtain ⟨hkeys, hms⟩ :=
      ms.isTidy_normal .nil n h (Nat.le_of_succ_le_succ hdepth) .nil (by simp [Members.toList])
    exact isTidy_object hkeys hms

theorem Values.isTidy_normal : (vs : Values) → (n : Nat) → vs.isWhole → vs.depth ≤ n →
    ∀ v ∈ vs.normal.toList, v.IsTidy n
  | .nil, _, _, _ => by simp [Values.normal, Values.toList]
  | .cons v vs, n, h, hdepth => by
    simp only [Values.isWhole, Bool.and_eq_true] at h
    obtain ⟨hv, hvs⟩ := Nat.max_le.mp hdepth
    simp only [Values.normal, Values.toList, List.mem_cons, forall_eq_or_imp]
    exact ⟨v.isTidy_normal n h.1 hv, vs.isTidy_normal n h.2 hvs⟩

theorem Members.isTidy_normal : (ms sorted : Members) → (n : Nat) → ms.isWhole → ms.depth ≤ n →
    sorted.keys.Pairwise (· < ·) → (∀ p ∈ sorted.toList, p.2.IsTidy n) →
    (ms.normal sorted).keys.Pairwise (· < ·) ∧ ∀ p ∈ (ms.normal sorted).toList, p.2.IsTidy n
  | .nil, _, _, _, _, hkeys, hsorted => ⟨hkeys, hsorted⟩
  | .cons k v ms, sorted, n, h, hdepth, hkeys, hsorted => by
    simp only [Members.isWhole, Bool.and_eq_true] at h
    obtain ⟨hv, hms⟩ := Nat.max_le.mp hdepth
    refine ms.isTidy_normal _ n h.2 hms (sorted.pairwise_keys_insert k v.normal hkeys) ?_
    intro p hp
    rcases Members.mem_toList_insert hp with rfl | hp
    · exact v.isTidy_normal n h.1 hv
    · exact hsorted p hp

end

end HostReach.Json
