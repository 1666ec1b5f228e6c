import HostReach.Json.Value

/-!
A value whose objects are sorted by key already is what sorting makes of it.
-/
namespace HostReach.Json

def Members.keys (ms : Members) : List String := ms.toList.map Prod.fst

mutual

/-- Whether the keys of every object ascend strictly. -/
def Value.isSorted : Value → Bool
  | .array vs => vs.isSorted
  | .object ms => decide (ms.keys.Pairwise (· < ·)) && ms.isSorted
  | _ => true

def Values.isSorted : Values → Bool
  | .nil => true
  | .cons v vs => v.isSorted && vs.isSorted

def Members.isSorted : Members → Bool
  | .nil => true
  | .cons _ v ms => v.isSorted && ms.isSorted

end

namespace Members

theorem toList_inj {ms ns : Members} (h : ms.toList = ns.toList) : ms = ns := by
  have ofList_toList : ∀ ms : Members, ofList ms.toList = ms := by
    intro ms
    induction ms using toList.induct with
    | case1 => rfl
    | case2 k v ms ih => rw [toList, ofList, ih]
  rw [← ofList_toList ms, h, ofList_toList]

theorem toList_insert {ms : Members} {k : String} (v : Value) (h : ∀ l ∈ ms.keys, l < k) :
    (ms.insert k v).toList = ms.toList ++ [(k, v)] := by
  induction ms using toList.induct with
  | case1 => rfl
  | case2 l w ms ih =>
    have hl : l < k := h l (by simp [keys, toList])
    have hrest := ih fun j hj => h j (by
      simp only [keys, toList, List.map_cons, List.mem_cons]
      exact .inr hj)
    rw [insert, if_neg (String.ne_of_lt hl).symm, if_neg (String.lt_asymm hl), toList, hrest]
    rfl

end Members

mutual

theorem Value.normal_of_isSorted : (v : Value) → v.isSorted → v.normal = v
  | .null, _ | .bool _, _ | .int _, _ | .real _, _ | .text _, _ => rfl
  | .array vs, h => congrArg Value.array (vs.normal_of_isSorted h)
  | .object ms, h => by
    simp only [Value.isSorted, Bool.and_eq_true, decide_eq_true_eq] at h
    have hnormal := ms.toList_normal .nil h.1 h.2 (by simp [Members.keys, Members.toList])
    rw [Value.normal, Members.toList_inj hnormal]

theorem Values.normal_of_isSorted : (vs : Values) → vs.isSorted → vs.normal = vs
  | .nil, _ => rfl
  | .cons v vs, h => by
    simp only [Values.isSorted, Bool.and_eq_true] at h
    rw [Values.normal, v.normal_of_isSorted h.1, vs.normal_of_isSorted h.2]

theorem Members.toList_normal : (ms sorted : Members) → ms.keys.Pairwise (· < ·) → ms.isSorted →
    (∀ k ∈ sorted.keys, ∀ l ∈ ms.keys, k < l) →
    (ms.normal sorted).toList = sorted.toList ++ ms.toList
  | .nil, sorted, _, _, _ => by rw [Members.normal, Members.toList, List.append_nil]
  | .cons k v ms, sorted, hkeys, h, hbefore => by
    simp only [Members.isSorted, Bool.and_eq_true] at h
    simp only [Members.keys, Members.toList, List.map_cons, List.pairwise_cons,
      List.mem_cons] at hkeys hbefore
    have hinsert := Members.toList_insert v fun j hj => hbefore j hj k (.inl rfl)
    have hrest := ms.toList_normal (sorted.insert k v) hkeys.2 h.2 (by
      intro j hj l hl
      rw [Members.keys, hinsert, List.map_append, List.mem_append] at hj
      rcases hj with hj | hj
      · exact hbefore j hj l (.inr hl)
      · simp only [List.map_cons, List.map_nil, List.mem_singleton] at hj
        exact hj ▸ hkeys.1 l hl)
    rw [Members.normal, v.normal_of_isSorted h.1, hrest, hinsert, Members.toList, List.append_assoc]
    rfl

end

end HostReach.Json
