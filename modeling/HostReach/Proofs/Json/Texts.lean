import HostReach.Proofs.Json.Typed

/-!
A list of strings is read from an array whose elements are strings, and from nothing else.
-/
namespace HostReach.Json

variable {t u r rest : List Char} {levels : Nat} {s : String} {ss : List String}

def Values.texts? : Values → Option (List String)
  | .nil => some []
  | .cons v vs => v.text?.bind fun s => vs.texts?.map (s :: ·)

def Value.texts? : Value → Option (List String)
  | .array vs => vs.texts?
  | _ => none

theorem Values.texts?_ofList (ss : List String) :
    (Values.ofList (ss.map .text)).texts? = some ss := by
  induction ss with
  | nil => rfl
  | cons s ss ih => simp [Values.ofList, texts?, Value.text?, ih]

theorem Value.exists_values {x : Value} (h : x.texts? = some ss) : ∃ vs, x = .array vs ∧
    vs.texts? = some ss := by
  cases x with
  | array vs => exact ⟨vs, rfl, h⟩
  | _ => cases h

theorem Values.isSome_texts? {vs : Values} : vs.texts?.isSome ↔
    ∀ v ∈ vs.toList, ∃ s, v = .text s := by
  induction vs using Values.toList.induct with
  | case1 => exact iff_of_true rfl (List.forall_mem_nil _)
  | case2 v vs ih =>
    have hhead : v.text?.isSome ↔
        ∃ s, v = .text s := by simp only [Option.isSome_iff_exists, Value.text?_eq_some]
    rw [Values.toList, List.forall_mem_cons, ← ih, ← hhead, Values.texts?]
    cases v.text? <;> cases vs.texts? <;> simp

theorem Values.depth_of_texts {vs : Values} (h : vs.texts? = some ss) : vs.depth = 0 := by
  induction vs using Values.toList.induct generalizing ss with
  | case1 => rfl
  | case2 v vs ih =>
    obtain ⟨s, hs, hss⟩ := Option.bind_eq_some_iff.mp h
    obtain ⟨ss, hvs, -⟩ := Option.map_eq_some_iff.mp hss
    rw [Value.text?_eq_some] at hs
    rw [depth, hs, ih hvs]
    rfl

def Elements.texts? (es : Elements) : Option (List String) := es.values?.bind Values.texts?

def Tree.text? (v : Tree) : Option String := v.value?.bind Value.text?

theorem Elements.texts?_last (v : Tree) (after : Space) :
    (last v after).texts? = v.text?.map ([·]) := by
  unfold texts? Tree.text?
  rw [values?]
  cases v.value? with
  | none => rfl
  | some x => cases hx : x.text? <;> simp [Values.texts?, hx]

theorem Elements.texts?_cons (v : Tree) (after before : Space) (es : Elements) :
    (cons v after before es).texts? = v.text?.bind fun s => es.texts?.map (s :: ·) := by
  unfold texts? Tree.text?
  rw [values?]
  cases v.value? with
  | none => rfl
  | some x =>
    cases es.values? with
    | none => cases hx : x.text? <;> simp [hx]
    | some vs => cases hx : x.text? <;> simp [Values.texts?, hx]

theorem readTextOf_chars {v : Tree} (hends : v.EndsAt u) (expected : String) :
    readTextOf expected (v.chars u) = .ok (s, r) ↔ v.text? = some s ∧ r = u := by
  have hread (x : Value) : read 0 (v.chars u) = .ok (x, r) ↔
      v.value? = some x ∧ x.depth ≤ 0 ∧ r = u :=
    read_chars .none hends
  have htext : readTextOf expected (v.chars u) = .ok (s, r) ↔
      ∃ x, read 0 (v.chars u) = .ok (x, r) ∧ x.text? = some s := readTextOf_eq_ok
  simp only [htext, hread, Tree.text?, Option.bind_eq_some_iff]
  constructor
  · rintro ⟨x, ⟨hx, -, hr⟩, hs⟩
    exact ⟨⟨x, hx, hs⟩, hr⟩
  · rintro ⟨⟨x, hx, hs⟩, hr⟩
    have hdepth : x.depth ≤ 0 := by
      rw [Value.text?_eq_some.mp hs]
      exact Nat.le_refl 0
    exact ⟨x, ⟨hx, hdepth, hr⟩, hs⟩

theorem readTextsFrom_eq_ok {fuel : Nat} :
    readTextsFrom (fuel + 1) t = .ok (ss, r) ↔
      ∃ s u, readTextOf "a string" t = .ok (s, u) ∧
        ((nextElement u = .ok (.done r) ∧ [s] = ss) ∨
          ∃ u' ss', nextElement u = .ok (.more u') ∧ readTextsFrom fuel u' = .ok (ss', r) ∧
          s :: ss' = ss) := by
  rw [readTextsFrom]
  constructor
  · intro h
    split at h
    · cases h
    · rename_i hread
      refine ⟨_, _, hread, ?_⟩
      split at h
      · cases h
      · rename_i hnext
        cases h
        exact .inl ⟨hnext, rfl⟩
      · rename_i hnext
        obtain ⟨⟨ss', r'⟩, hrest, heq⟩ := map_eq_ok.mp h
        cases heq
        exact .inr ⟨_, ss', hnext, hrest, rfl⟩
  · rintro ⟨s, u, hread, ⟨hnext, rfl⟩ | ⟨u', ss', hnext, hrest, rfl⟩⟩
    · simp [hread, hnext]
    · simp [hread, hnext, hrest, Except.map]

theorem readTextsFrom_elements : (es : Elements) → {ss : List String} → {fuel : Nat} →
    (es.chars rest).length < fuel →
    (readTextsFrom fuel (es.chars rest) = .ok (ss, r) ↔ es.texts? = some ss ∧ r = rest)
  | _, _, 0, hfuel => by omega
  | .last v after, ss, fuel + 1, _ => by
    have hends := v.endsAt_space after (c := ']') (by decide) rest
    rw [Elements.chars, readTextsFrom_eq_ok, Elements.texts?_last]
    simp only [readTextOf_chars hends, Option.map_eq_some_iff]
    constructor
    · rintro ⟨s, _, ⟨hs, rfl⟩, ⟨hnext, rfl⟩ | ⟨u', ss', hnext, -⟩⟩
      · rw [nextElement_done after.isSpace] at hnext
        cases hnext
        exact ⟨⟨s, hs, rfl⟩, rfl⟩
      · rw [nextElement_done after.isSpace] at hnext
        cases hnext
    · rintro ⟨⟨s, hs, rfl⟩, rfl⟩
      exact ⟨s, _, ⟨hs, rfl⟩, .inl ⟨nextElement_done after.isSpace _, rfl⟩⟩
  | .cons v after before es, ss, fuel + 1, hfuel => by
    have hends := v.endsAt_space after (c := ',') (by decide) (before ++ es.chars rest)
    have hlength := length_behind_tree v after before (c := ',') (es.chars rest)
    rw [Elements.chars] at hfuel
    have hshort : (es.chars rest).length < fuel := by omega
    have htail (ss' : List String) : readTextsFrom fuel (es.chars rest) = .ok (ss', r) ↔
        es.texts? = some ss' ∧ r = rest := readTextsFrom_elements es hshort
    rw [Elements.chars, readTextsFrom_eq_ok, Elements.texts?_cons]
    simp only [readTextOf_chars hends, Option.bind_eq_some_iff, Option.map_eq_some_iff]
    constructor
    · rintro ⟨s, _, ⟨hs, rfl⟩, ⟨hnext, -⟩ | ⟨u', ss', hnext, hrest, rfl⟩⟩
      · rw [nextElement_elements] at hnext
        cases hnext
      · rw [nextElement_elements] at hnext
        cases hnext
        obtain ⟨hes, rfl⟩ := (htail ss').mp hrest
        exact ⟨⟨s, hs, ss', hes, rfl⟩, rfl⟩
    · rintro ⟨⟨s, hs, ss', hes, rfl⟩, rfl⟩
      exact ⟨s, _, ⟨hs, rfl⟩,
        .inr ⟨_, ss', nextElement_elements after before es _, (htail ss').mpr ⟨hes, rfl⟩, rfl⟩⟩

theorem exists_elements_of_readTextsFrom {fuel : Nat} (h : readTextsFrom fuel t = .ok (ss, r)) :
    ∃ (w : Space) (es : Elements), t = w ++ es.chars r ∧ es.texts? = some ss := by
  induction fuel generalizing t ss with
  | zero => cases h
  | succ fuel ih =>
    obtain ⟨s, u, hread, hnext⟩ := readTextsFrom_eq_ok.mp h
    obtain ⟨x, hx, hs⟩ : ∃ x, read 0 t = .ok (x, u) ∧ x.text? = some s := readTextOf_eq_ok.mp hread
    obtain ⟨v, ⟨⟨w, rfl⟩, -⟩, hv, -⟩ := read_eq_ok.mp hx
    have htext : v.text? = some s := by rw [Tree.text?, hv, Option.bind_some, hs]
    rcases hnext with ⟨hnext, rfl⟩ | ⟨u', ss', hnext, hrest, rfl⟩
    · obtain ⟨after, rfl⟩ := nextElement_eq_ok hnext
      exact ⟨w, .last v after, rfl, by rw [Elements.texts?_last, htext, Option.map_some]⟩
    · obtain ⟨after, before, rfl⟩ := nextElement_eq_ok hnext
      obtain ⟨more, es, rfl, hes⟩ := ih hrest
      refine ⟨w, .cons v after (before.append more) es, ?_, ?_⟩
      · rw [Elements.chars, Space.append_append]
      · rw [Elements.texts?_cons, htext, Option.bind_some, hes, Option.map_some]

theorem readTexts_bracket (h : skipSpace t = '[' :: u) :
    readTexts (levels + 1) t =
      match firstElement u with
      | .error f => .error f
      | .ok (.done t) => .ok ([], t)
      | .ok (.more t) => readTextsFrom (t.length + 1) t := by
  rw [readTexts, h]
  rfl

theorem exists_tree_of_bracket (hopen : skipSpace t = '[' :: u)
    (h : readTexts (levels + 1) t = .ok (ss, r)) :
    ∃ v vs, TreeAt t r v ∧ v.value? = some (.array vs) ∧ vs.texts? = some ss := by
  rw [readTexts_bracket hopen] at h
  split at h
  · cases h
  · rename_i hfirst
    cases h
    obtain ⟨inside, rfl⟩ := firstElement_eq_ok hfirst
    exact ⟨.emptyArray inside, .nil, treeAt_of_skipSpace hopen trivial, rfl, rfl⟩
  · rename_i hfirst
    obtain ⟨before, rfl⟩ := firstElement_eq_ok hfirst
    obtain ⟨more, es, rfl, hes⟩ := exists_elements_of_readTextsFrom h
    obtain ⟨vs, hvs, hss⟩ := Option.bind_eq_some_iff.mp hes
    rw [← Space.append_append] at hopen
    exact ⟨.array (before.append more) es, vs, treeAt_of_skipSpace hopen trivial,
      by rw [Tree.value?, hvs]; rfl, hss⟩

theorem readTexts_tree {v : Tree} {vs : Values} (hv : TreeAt t r v)
    (hvs : v.value? = some (.array vs)) (hss : vs.texts? = some ss) :
    readTexts (levels + 1) t = .ok (ss, r) := by
  obtain ⟨hspace, -⟩ := treeAt_iff.mp hv
  cases v with
  | emptyArray w =>
    cases hvs
    cases hss
    rw [readTexts_bracket hspace, firstElement_done]
  | array w es =>
    obtain ⟨vs, hes, heq⟩ := Option.map_eq_some_iff.mp hvs
    cases heq
    rw [readTexts_bracket hspace, firstElement_elements]
    have htexts : es.texts? = some ss := by rw [Elements.texts?, hes, Option.bind_some, hss]
    exact (readTextsFrom_elements es (Nat.lt_succ_self _)).mpr ⟨htexts, rfl⟩
  | number n =>
    obtain ⟨y, -, hy⟩ := Option.map_eq_some_iff.mp hvs
    cases y <;> cases hy
  | _ => simp [Tree.value?] at hvs

theorem reads_readTexts : Reads readTexts Value.texts? := by
  intro levels t ss r
  simp only [read_eq_ok]
  constructor
  · intro h
    have hread := h
    unfold readTexts at h
    split at h
    · cases h
    · rename_i hopen
      cases levels with
      | zero => cases h
      | succ levels =>
        obtain ⟨v, vs, hv, hvs, hss⟩ := exists_tree_of_bracket hopen hread
        have hdepth : (Value.array vs).depth ≤ levels + 1 := by
          simp [Value.depth, vs.depth_of_texts hss]
        exact ⟨.array vs, ⟨v, hv, hvs, hdepth⟩, hss⟩
    · cases h
  · rintro ⟨x, ⟨v, hv, hx, hdepth⟩, hss⟩
    obtain ⟨vs, rfl, hss⟩ := Value.exists_values hss
    cases levels with
    | zero => cases hdepth
    | succ levels => exact readTexts_tree hv hx hss

end HostReach.Json
