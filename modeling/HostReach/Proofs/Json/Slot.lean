import HostReach.Proofs.Json.Typed

/-!
What a record makes of a JSON value. Each field of a record fills one slot of the draft, and the
slots do not touch one another: so a member with a known key fills its slot, which must be empty,
any other member changes nothing, and the elements of an array fill the slots in their order.
-/
namespace HostReach.Json

variable {δ : Type}

namespace Shape

variable {shape : Shape δ} {levels : Nat} {d e : δ} {t r : List Char}

theorem close_eq_ok : shape.close d t = .ok (e, r) ↔ shape.missing? d = none ∧ d = e ∧ t = r := by
  unfold close
  cases shape.missing? d with
  | none => simp
  | some f => simp

theorem readMembers_eq_ok {fuel : Nat} :
    shape.readMembers (fuel + 1) levels d t = .ok (e, r) ↔
      ∃ key u d' u', readString t = .ok (key, u) ∧ shape.readMember levels key d u = .ok (d', u') ∧
        ((nextMember u' = .ok (.done r) ∧ shape.missing? d' = none ∧ d' = e) ∨
          ∃ u'', nextMember u' = .ok (.more u'') ∧
          shape.readMembers fuel levels d' u'' = .ok (e, r)) := by
  rw [readMembers]
  constructor
  · intro h
    split at h
    · cases h
    · rename_i key u hkey
      split at h
      · cases h
      · rename_i d' u' hmember
        refine ⟨key, u, d', u', hkey, hmember, ?_⟩
        split at h
        · cases h
        · rename_i hnext
          obtain ⟨hmissing, rfl, rfl⟩ := close_eq_ok.mp h
          exact .inl ⟨hnext, hmissing, rfl⟩
        · rename_i hnext
          exact .inr ⟨_, hnext, h⟩
  · rintro ⟨key, u, d', u', hkey, hmember, ⟨hnext, hmissing, rfl⟩ | ⟨u'', hnext, hread⟩⟩
    · simp [hkey, hmember, hnext, close_eq_ok, hmissing]
    · simp [hkey, hmember, hnext, hread]

theorem readElements_eq_ok {count : Nat} {field : Field δ} {fields : List (Field δ)} :
    shape.readElements levels count d (.ok (.more t)) (field :: fields) = .ok (e, r) ↔
      ∃ put u, field.read levels t = .ok (put, u) ∧
        shape.readElements levels (count + 1) (put d)
          (if fields.isEmpty then (closeList u).map .done else nextElement u) fields =
            .ok (e, r) := by
  rw [readElements]
  constructor
  · intro h
    split at h
    · cases h
    · rename_i hread
      exact ⟨_, _, hread, h⟩
  · rintro ⟨put, u, hread, h⟩
    simp only [hread, h]

end Shape

structure Slot (δ : Type) where
  field : Field δ
  Content : Type
  get : δ → Option Content
  set : Content → δ → δ
  accept : Value → Option Content
  get_set : ∀ a d, get (set a d) = some a
  isFilled_eq : ∀ d, field.isFilled d = (get d).isSome
  reads : Reads field.read fun v => (accept v).map set

def Slot.key (s : Slot δ) : String := s.field.key

def Slot.of {α β : Type} (key : String) (isOptional : Bool) (get : δ → Option β) (set : β → δ → δ)
    (content : α → β) {reader : Nat → List Char → Read α} {accept : Value → Option α}
    (reads : Reads reader accept) (get_set : ∀ b d, get (set b d) = some b) : Slot δ where
  field := .of key isOptional (fun d => (get d).isSome) (fun a => set (content a)) reader
  Content := β
  get := get
  set := set
  accept v := (accept v).map content
  get_set := get_set
  isFilled_eq _ := rfl
  reads := by
    simp only [Option.map_map]
    exact reads.map (set ∘ content)

def Tree.valueWithin? (levels : Nat) (v : Tree) : Option Value := v.value?.filter (·.depth ≤ levels)

theorem Tree.valueWithin?_eq_some {levels : Nat} {v : Tree} {x : Value} :
    v.valueWithin? levels = some x ↔ v.value? = some x ∧ x.depth ≤ levels := by
  simp [valueWithin?, Option.filter_eq_some_iff]

def Slot.take (s : Slot δ) (levels : Nat) (v : Tree) : Option s.Content :=
  (v.valueWithin? levels).bind s.accept

theorem Slot.take_eq_some {s : Slot δ} {levels : Nat} {v : Tree} {a : s.Content} :
    s.take levels v = some a ↔ ∃ x, v.value? = some x ∧ x.depth ≤ levels ∧ s.accept x = some a := by
  simp only [take, Option.bind_eq_some_iff, Tree.valueWithin?_eq_some, and_assoc]

theorem Slot.take_of_value (s : Slot δ) {levels : Nat} {v : Tree} {x : Value}
    (hx : v.value? = some x) (hdepth : x.depth ≤ levels) : s.take levels v = s.accept x := by
  rw [take, Tree.valueWithin?_eq_some.mpr ⟨hx, hdepth⟩, Option.bind_some]

theorem Slot.read_eq_ok (s : Slot δ) {levels : Nat} (w : Space) {v : Tree}
    {rest r : List Char} {put : δ → δ} (hends : v.EndsAt rest) :
    s.field.read levels (w ++ v.chars rest) = .ok (put, r) ↔
      (∃ a, s.take levels v = some a ∧ s.set a = put) ∧ r = rest := by
  simp only [s.reads levels, Json.read_chars w hends, s.take_eq_some, Option.map_eq_some_iff]
  constructor
  · rintro ⟨x, ⟨hx, hdepth, hr⟩, a, ha, hput⟩
    exact ⟨⟨a, ⟨x, hx, hdepth, ha⟩, hput⟩, hr⟩
  · rintro ⟨⟨a, ⟨x, hx, hdepth, ha⟩, hput⟩, hr⟩
    exact ⟨x, ⟨hx, hdepth, hr⟩, a, ha, hput⟩

theorem Slot.exists_tree (s : Slot δ) {levels : Nat} {t r : List Char} {put : δ → δ}
    (h : s.field.read levels t = .ok (put, r)) :
    ∃ (w : Space) (v : Tree) (x : Value) (a : s.Content), t = w ++ v.chars r ∧ v.value? = some x ∧
      x.depth ≤ levels ∧ s.accept x = some a ∧ s.set a = put := by
  obtain ⟨x, hread, hput⟩ := (s.reads levels t put r).mp h
  obtain ⟨a, ha, hset⟩ := Option.map_eq_some_iff.mp hput
  obtain ⟨v, ⟨⟨w, hw⟩, -⟩, hx, hdepth⟩ := Json.read_eq_ok.mp hread
  exact ⟨w, v, x, a, hw, hx, hdepth, ha, hset⟩

/-- To fill one of the slots leaves the other as it is. -/
structure Slot.Apart (s t : Slot δ) : Prop where
  key : s.key ≠ t.key
  get_set : ∀ a d, t.get (s.set a d) = t.get d
  get_set' : ∀ a d, s.get (t.set a d) = s.get d

theorem Slot.Apart.symm {s t : Slot δ} (h : s.Apart t) : t.Apart s :=
  ⟨h.key.symm, h.get_set', h.get_set⟩

structure Layout (shape : Shape δ) where
  slots : List (Slot δ)
  fields_eq : shape.fields = slots.map Slot.field
  apart : slots.Pairwise Slot.Apart

namespace Layout

variable {shape : Shape δ} (l : Layout shape)

def slot? (key : String) : Option (Slot δ) := l.slots.find? fun s => s.key == key

def put (key : String) (v : Value) (d : δ) : Option δ :=
  match l.slot? key with
  | none => some d
  | some s => if (s.get d).isSome then none else (s.accept v).map (s.set · d)

def fill : Members → δ → Option δ
  | .nil, d => some d
  | .cons k v ms, d => (l.put k v d).bind (fill ms)

/-- Elements put into the slots of the remaining fields; only optional ones may be left over. -/
def fillElements : List (Slot δ) → Values → δ → Option δ
  | ss, .nil, d => if ss.all (·.field.isOptional) then some d else none
  | [], .cons _ _, _ => none
  | s :: ss, .cons v vs, d => (s.accept v).bind fun a => fillElements ss vs (s.set a d)

theorem field?_eq (key : String) :
    shape.fields.find? (fun f => f.key == key) = (l.slot? key).map Slot.field := by
  rw [l.fields_eq, List.find?_map]
  rfl

theorem eq_or_apart {l : Layout shape} {s t : Slot δ} (hs : s ∈ l.slots) (ht : t ∈ l.slots) :
    s = t ∨ s.Apart t := by
  have hapart := l.apart
  generalize l.slots = slots at hs ht hapart
  induction hapart with
  | nil => cases hs
  | cons hfirst _ ih =>
    rcases List.mem_cons.mp hs with rfl | hs'
    · rcases List.mem_cons.mp ht with rfl | ht'
      · exact .inl rfl
      · exact .inr (hfirst t ht')
    · rcases List.mem_cons.mp ht with rfl | ht'
      · exact .inr (hfirst s hs').symm
      · exact ih hs' ht'

theorem slot?_eq_none {l : Layout shape} {key : String} (h : l.slot? key = none) :
    ∀ s ∈ l.slots, s.key ≠ key := by
  intro s hs heq
  have hnot := List.find?_eq_none.mp h s hs
  simp [heq] at hnot

theorem slot?_eq_some {l : Layout shape} {key : String} {s : Slot δ} (h : l.slot? key = some s) :
    s ∈ l.slots ∧ s.key = key := by
  have hkey := List.find?_some h
  exact ⟨List.mem_of_find?_eq_some h, by simpa using hkey⟩

end Layout

def Members.valuesOf (key : String) : Members → List Value
  | .nil => []
  | .cons k v ms => if k = key then v :: ms.valuesOf key else ms.valuesOf key

section underKey

variable {κ β : Type} [DecidableEq κ]

def underKey (key : κ) (ms : List (κ × β)) : List β :=
  ms.filterMap fun m => if m.1 = key then some m.2 else none

theorem underKey_cons (key k : κ) (v : β) (ms : List (κ × β)) :
    underKey key ((k, v) :: ms) = if k = key then v :: underKey key ms else underKey key ms := by
  unfold underKey
  split <;> simp [*]

theorem mem_underKey {key : κ} {v : β} {ms : List (κ × β)} : v ∈ underKey key ms ↔
    (key, v) ∈ ms := by
  simp [underKey, Option.ite_none_right_eq_some]

theorem underKey_map (key : κ) (ms : List (κ × β)) :
    underKey (some key) (ms.map (Prod.map some id)) = underKey key ms := by
  unfold underKey
  rw [List.filterMap_map]
  refine congrArg (List.filterMap · ms) (funext fun m => ?_)
  simp

theorem underKey_toList (key : String) (ms : Members) :
    underKey key ms.toList = ms.valuesOf key := by
  induction ms using Members.toList.induct with
  | case1 => rfl
  | case2 k v ms ih => rw [Members.toList, underKey_cons, ih, Members.valuesOf]

end underKey

theorem exists_map_some {κ β : Type} {ms : List (Option κ × β)} (h : ∀ m ∈ ms, m.1 ≠ none) :
    ∃ ns : List (κ × β), ms = ns.map (Prod.map some id) := by
  induction ms with
  | nil => exact ⟨[], rfl⟩
  | cons m ms ih =>
    obtain ⟨hm, hms⟩ := List.forall_mem_cons.mp h
    obtain ⟨ns, rfl⟩ := ih hms
    obtain ⟨k, v⟩ := m
    obtain ⟨key, rfl⟩ := Option.ne_none_iff_exists'.mp hm
    exact ⟨(key, v) :: ns, rfl⟩

/-- What a slot holds after items with its key: what it held before, or the content of one item if
it held nothing. A second item is refused. -/
def Takes {α β : Type} (accept : β → Option α) : Option α → List β → Option α → Prop
  | before, [], after => after = before
  | none, [v], after => ∃ a, accept v = some a ∧ after = some a
  | _, _, _ => False

section Takes

variable {α β : Type} {accept : β → Option α} {before after after' : Option α} {v : β} {vs : List β}

theorem takes_cons :
    Takes accept before (v :: vs) after ↔
    before = none ∧ ∃ a, accept v = some a ∧ Takes accept (some a) vs after := by
  cases before with
  | some b => cases vs <;> simp [Takes]
  | none => cases vs <;> simp [Takes]

theorem takes_none :
    Takes accept none vs after ↔
      (vs = [] ∧ after = none) ∨ ∃ v a, vs = [v] ∧ accept v = some a ∧ after = some a := by
  match vs with
  | [] => simp [Takes]
  | [v] => simp [Takes]
  | v :: w :: vs => simp [Takes]

theorem Takes.unique (h : Takes accept before vs after) (h' : Takes accept before vs after') :
    after = after' := by
  cases vs with
  | nil => exact Eq.trans h (Eq.symm h')
  | cons v vs =>
    obtain ⟨-, a, ha, h⟩ := takes_cons.mp h
    obtain ⟨-, a', ha', h'⟩ := takes_cons.mp h'
    rw [ha] at ha'
    cases ha'
    cases vs with
    | nil => exact Eq.trans h (Eq.symm h')
    | cons w vs => simp [takes_cons] at h

end Takes

namespace Layout

variable {shape : Shape δ} (l : Layout shape)

/-! Members are put into a draft as values or as they are written. What follows holds of both,
whatever it is that a slot makes of an item. -/

section Fill

variable {β : Type} {take : (s : Slot δ) → β → Option s.Content} {d e : δ}

def putWith (take : (s : Slot δ) → β → Option s.Content) (key : String) (v : β)
    (d : δ) : Option δ :=
  match l.slot? key with
  | none => some d
  | some s => if (s.get d).isSome then none else (take s v).map (s.set · d)

def fillWith (take : (s : Slot δ) → β → Option s.Content) : List (String × β) → δ → Option δ
  | [], d => some d
  | (k, v) :: ms, d => (l.putWith take k v d).bind (fillWith take ms)

variable {l}

theorem putWith_eq_some {key : String} {v : β} :
    l.putWith take key v d = some e ↔ (l.slot? key = none ∧ d = e) ∨
      ∃ s a, l.slot? key = some s ∧ s.get d = none ∧ take s v = some a ∧ s.set a d = e := by
  unfold putWith
  cases hslot : l.slot? key with
  | none => simp
  | some s =>
    cases hget : s.get d with
    | none => simp [hget]
    | some a => simp [hget]

theorem takes_of_fillWith {ms : List (String × β)} (h : l.fillWith take ms d = some e) {s : Slot δ}
    (hs : s ∈ l.slots) : Takes (take s) (s.get d) (underKey s.key ms) (s.get e) := by
  induction ms generalizing d with
  | nil =>
    cases h
    rfl
  | cons m ms ih =>
    obtain ⟨k, v⟩ := m
    obtain ⟨d', hput, hfill⟩ := Option.bind_eq_some_iff.mp h
    have hrest := ih hfill
    rw [underKey_cons]
    rcases putWith_eq_some.mp hput with ⟨hslot, rfl⟩ | ⟨s', a, hslot, hget, ha, rfl⟩
    · rw [if_neg (Ne.symm (slot?_eq_none hslot s hs))]
      exact hrest
    · obtain ⟨hs', rfl⟩ := slot?_eq_some hslot
      rcases eq_or_apart hs' hs with rfl | hapart
      · rw [s'.get_set] at hrest
        rw [if_pos rfl, takes_cons]
        exact ⟨hget, a, ha, hrest⟩
      · rw [hapart.get_set] at hrest
        rw [if_neg hapart.key]
        exact hrest

theorem exists_fillWith {ms : List (String × β)}
    (h : ∀ s ∈ l.slots, ∃ content, Takes (take s) (s.get d) (underKey s.key ms) content) :
    ∃ e, l.fillWith take ms d = some e := by
  induction ms generalizing d with
  | nil => exact ⟨d, rfl⟩
  | cons m ms ih =>
    obtain ⟨k, v⟩ := m
    simp only [underKey_cons] at h
    suffices ∃ d', l.putWith take k v d = some d' ∧
        ∀ s ∈ l.slots, ∃ content, Takes (take s) (s.get d') (underKey s.key ms) content by
      obtain ⟨d', hput, hrest⟩ := this
      obtain ⟨e, hfill⟩ := ih hrest
      exact ⟨e, Option.bind_eq_some_iff.mpr ⟨d', hput, hfill⟩⟩
    cases hslot : l.slot? k with
    | none =>
      refine ⟨d, putWith_eq_some.mpr (.inl ⟨hslot, rfl⟩), fun s hs => ?_⟩
      obtain ⟨content, hcontent⟩ := h s hs
      rw [if_neg (Ne.symm (slot?_eq_none hslot s hs))] at hcontent
      exact ⟨content, hcontent⟩
    | some s' =>
      obtain ⟨hs', rfl⟩ := slot?_eq_some hslot
      obtain ⟨content, hcontent⟩ := h s' hs'
      rw [if_pos rfl, takes_cons] at hcontent
      obtain ⟨hget, a, ha, hcontent⟩ := hcontent
      refine ⟨s'.set a d, putWith_eq_some.mpr (.inr ⟨s', a, hslot, hget, ha, rfl⟩), fun s hs => ?_⟩
      rcases eq_or_apart hs' hs with rfl | hapart
      · exact ⟨content, by rwa [s'.get_set]⟩
      · obtain ⟨content, hcontent⟩ := h s hs
        rw [if_neg hapart.key] at hcontent
        exact ⟨content, by rwa [hapart.get_set]⟩

end Fill

theorem put_eq_some {key : String} {v : Value} {d e : δ} :
    l.put key v d = some e ↔ (l.slot? key = none ∧ d = e) ∨
      ∃ s a, l.slot? key = some s ∧ s.get d = none ∧ s.accept v = some a ∧ s.set a d = e :=
  putWith_eq_some

theorem fill_eq (ms : Members) (d : δ) : l.fill ms d = l.fillWith Slot.accept ms.toList d := by
  induction ms using Members.toList.induct generalizing d with
  | case1 => rfl
  | case2 k v ms ih => exact congrArg (Option.bind (l.put k v d)) (funext ih)

theorem takes_of_fill {ms : Members} {d e : δ} (h : l.fill ms d = some e) {s : Slot δ}
    (hs : s ∈ l.slots) :
    Takes s.accept (s.get d) (ms.valuesOf s.key) (s.get e) := by
  rw [fill_eq] at h
  rw [← underKey_toList]
  exact takes_of_fillWith h hs

theorem exists_fill {ms : Members} {d : δ}
    (h : ∀ s ∈ l.slots, ∃ content, Takes s.accept (s.get d) (ms.valuesOf s.key) content) :
    ∃ e, l.fill ms d = some e := by
  simp only [← underKey_toList] at h
  rw [fill_eq]
  exact exists_fillWith h

theorem slot?_of_mem {s : Slot δ} (hs : s ∈ l.slots) : l.slot? s.key = some s := by
  cases hslot : l.slot? s.key with
  | none => exact absurd rfl (slot?_eq_none hslot s hs)
  | some s' =>
    obtain ⟨hs', hkey⟩ := slot?_eq_some hslot
    rcases eq_or_apart hs' hs with rfl | hapart
    · rfl
    · exact absurd hkey hapart.key

/-- Elements fill empty slots as the members do that give them the keys of the slots, in order. -/
theorem fillElements_iff {ss : List (Slot δ)} {vs : List Value} {d e : δ}
    (hslots : ∀ s ∈ ss, s ∈ l.slots) (hapart : ss.Pairwise Slot.Apart)
    (hempty : ∀ s ∈ ss, s.get d = none) :
    fillElements ss (.ofList vs) d = some e ↔
      vs.length ≤ ss.length ∧ (ss.drop vs.length).all (·.field.isOptional) = true ∧
        l.fill (.ofList ((ss.map Slot.key).zip vs)) d = some e := by
  induction vs generalizing ss d with
  | nil => simp [Values.ofList, fillElements, Members.ofList, fill]
  | cons v vs ih =>
    cases ss with
    | nil => simp [Values.ofList, fillElements]
    | cons s ss =>
      have hput : l.put s.key v d = (s.accept v).map (s.set · d) := by
        unfold put
        simp only [l.slot?_of_mem (hslots s (by simp)), hempty s (by simp)]
        rfl
      rw [List.pairwise_cons] at hapart
      simp only [Values.ofList, fillElements, List.map_cons, List.zip_cons_cons,
        Members.ofList, fill, hput, List.length_cons, List.drop_succ_cons, Nat.add_le_add_iff_right]
      cases s.accept v with
      | none => simp
      | some a =>
        exact ih (fun t ht => hslots t (by simp [ht])) hapart.2 fun t ht => by
          rw [(hapart.1 t ht).get_set, hempty t (by simp [ht])]

/-- A member put into a draft, as it is written. Under an unknown key it need not have a value. -/
def putTree (levels : Nat) (key : String) (v : Tree) (d : δ) : Option δ :=
  match l.slot? key with
  | none => some d
  | some s => if (s.get d).isSome then none else (s.take levels v).map (s.set · d)

def fillEntries (levels : Nat) : Entries → δ → Option δ
  | .last k _ _ v _, d => (Literal.value? k).bind fun key => l.putTree levels key v d
  | .cons k _ _ v _ _ es, d =>
    (Literal.value? k).bind fun key => (l.putTree levels key v d).bind (fillEntries levels es)

variable {l} {levels : Nat} {d e : δ} {rest t r : List Char}

theorem putTree_eq_some {key : String} {v : Tree} :
    l.putTree levels key v d = some e ↔ (l.slot? key = none ∧ d = e) ∨
      ∃ s a, l.slot? key = some s ∧ s.get d = none ∧ s.take levels v = some a ∧ s.set a d = e :=
  putWith_eq_some

theorem fillEntries_of_named : (es : Entries) → {ms : List (String × Tree)} →
    es.named = ms.map (Prod.map some id) →
    (d : δ) → l.fillEntries levels es d = l.fillWith (·.take levels) ms d
  | .last k _ _ v _, ms, hms, d => by
    obtain ⟨⟨key, w⟩, ns, rfl, hmember, hns⟩ := List.map_eq_cons_iff.mp hms.symm
    obtain ⟨hkey, rfl⟩ := Prod.mk.inj hmember
    rw [List.map_eq_nil_iff.mp hns, fillEntries, ← hkey, Option.bind_some, fillWith]
    exact (Option.bind_fun_some _).symm
  | .cons k _ _ v _ _ es, ms, hms, d => by
    obtain ⟨⟨key, w⟩, ns, rfl, hmember, hns⟩ := List.map_eq_cons_iff.mp hms.symm
    obtain ⟨hkey, rfl⟩ := Prod.mk.inj hmember
    rw [fillEntries, ← hkey, Option.bind_some, fillWith, funext (fillEntries_of_named es hns.symm)]
    rfl

theorem exists_named_of_fillEntries : (es : Entries) → {d : δ} →
    l.fillEntries levels es d = some e →
    ∃ ms : List (String × Tree), es.named = ms.map (Prod.map some id)
  | .last k _ _ v _, d, h => by
    obtain ⟨key, hkey, -⟩ := Option.bind_eq_some_iff.mp h
    exact ⟨[(key, v)], by simp [Entries.named, hkey]⟩
  | .cons k _ _ v _ _ es, d, h => by
    obtain ⟨key, hkey, h⟩ := Option.bind_eq_some_iff.mp h
    obtain ⟨d', -, h⟩ := Option.bind_eq_some_iff.mp h
    obtain ⟨ms, hms⟩ := exists_named_of_fillEntries es h
    exact ⟨(key, v) :: ms, by simp [Entries.named, hkey, hms]⟩

theorem putTree_of_value (key : String) {v : Tree} {x : Value} (hx : v.value? = some x)
    (hdepth : x.depth ≤ levels) (d : δ) : l.putTree levels key v d = l.put key x d := by
  unfold putTree put
  cases l.slot? key with
  | none => rfl
  | some s => simp only [s.take_of_value hx hdepth]

theorem fillEntries_of_members : (es : Entries) → {ms : Members} → es.members? = some ms →
    ms.depth ≤ levels →
    (d : δ) → l.fillEntries levels es d = l.fill ms d
  | .last k _ _ v _, ms, hms, hdepth, d => by
    obtain ⟨key, hkey, hms⟩ := Option.bind_eq_some_iff.mp hms
    obtain ⟨x, hx, rfl⟩ := Option.map_eq_some_iff.mp hms
    rw [fillEntries, hkey, Option.bind_some, putTree_of_value key hx (Nat.max_le.mp hdepth).1, fill]
    exact (Option.bind_fun_some _).symm
  | .cons k _ _ v _ _ es, ms, hms, hdepth, d => by
    obtain ⟨key, hkey, hms⟩ := Option.bind_eq_some_iff.mp hms
    obtain ⟨x, hx, hms⟩ := Option.bind_eq_some_iff.mp hms
    obtain ⟨ms, hes, rfl⟩ := Option.map_eq_some_iff.mp hms
    obtain ⟨hvalue, hrest⟩ := Nat.max_le.mp hdepth
    rw [fillEntries, hkey, Option.bind_some, putTree_of_value key hx hvalue, fill,
      funext (fillEntries_of_members es hes hrest)]

theorem readMember_eq_ok (key : String) (beforeColon afterColon : Space) {v : Tree}
    (hends : v.EndsAt rest) :
    shape.readMember levels key d (beforeColon ++ ':' :: (afterColon ++ v.chars rest)) =
      .ok (e, r) ↔
      l.putTree levels key v d = some e ∧ r = rest := by
  unfold Shape.readMember putTree
  rw [l.field?_eq]
  cases l.slot? key with
  | none =>
    simp only [Option.map_none, readColon_space, skip_chars afterColon hends, Except.map,
      Except.ok.injEq, Prod.mk.injEq, Option.some.injEq, eq_comm]
  | some s =>
    simp only [Option.map_some, readColon_space, s.isFilled_eq]
    split
    · simp
    · simp only [map_eq_ok, Prod.exists, s.read_eq_ok afterColon hends, Option.map_eq_some_iff]
      constructor
      · rintro ⟨_, _, ⟨⟨a, ha, rfl⟩, rfl⟩, heq⟩
        cases heq
        exact ⟨⟨a, ha, rfl⟩, rfl⟩
      · rintro ⟨⟨a, ha, rfl⟩, rfl⟩
        exact ⟨_, _, ⟨⟨a, ha, rfl⟩, rfl⟩, rfl⟩

theorem readMembers_entry (k : Literal) (beforeColon afterColon : Space) {v : Tree} {u : List Char}
    (hends : v.EndsAt u) {fuel : Nat} :
    shape.readMembers (fuel + 1) levels d
        (Literal.text k (beforeColon ++ ':' :: (afterColon ++ v.chars u))) = .ok (e, r) ↔
      ∃ key d', Literal.value? k = some key ∧ l.putTree levels key v d = some d' ∧
        ((nextMember u = .ok (.done r) ∧ shape.missing? d' = none ∧ d' = e) ∨
          ∃ u', nextMember u = .ok (.more u') ∧
          shape.readMembers fuel levels d' u' = .ok (e, r)) := by
  rw [Shape.readMembers_eq_ok]
  simp only [readString_text]
  constructor
  · rintro ⟨key, _, d', _, ⟨hkey, rfl⟩, hread, hnext⟩
    obtain ⟨hput, rfl⟩ := (readMember_eq_ok (l := l) key beforeColon afterColon hends).mp hread
    exact ⟨key, d', hkey, hput, hnext⟩
  · rintro ⟨key, d', hkey, hput, hnext⟩
    have hread := (readMember_eq_ok key beforeColon afterColon hends).mpr ⟨hput, rfl⟩
    exact ⟨key, _, d', u, ⟨hkey, rfl⟩, hread, hnext⟩

theorem readMembers_eq_ok : (es : Entries) → {d : δ} → {fuel : Nat} →
    (es.chars rest).length < fuel →
    (shape.readMembers fuel levels d (es.chars rest) = .ok (e, r) ↔
      l.fillEntries levels es d = some e ∧ shape.missing? e = none ∧ r = rest)
  | _, _, 0, hfuel => by omega
  | .last k beforeColon afterColon v after, d, fuel + 1, _ => by
    have hends := v.endsAt_space after (c := '\x7d') (by decide) rest
    rw [Entries.chars, readMembers_entry (l := l) k beforeColon afterColon hends]
    simp only [nextMember_done after.isSpace, Except.ok.injEq, Next.done.injEq,
      reduceCtorEq, false_and, exists_false, or_false, fillEntries, Option.bind_eq_some_iff]
    constructor
    · rintro ⟨key, d', hkey, hput, rfl, hmissing, rfl⟩
      exact ⟨⟨key, hkey, hput⟩, hmissing, rfl⟩
    · rintro ⟨⟨key, hkey, hput⟩, hmissing, rfl⟩
      exact ⟨key, e, hkey, hput, rfl, hmissing, rfl⟩
  | .cons k beforeColon afterColon v after before es, d, fuel + 1, hfuel => by
    have hends := v.endsAt_space after (c := ',') (by decide) (before ++ '\x22' :: es.chars rest)
    have hkeyLength := length_behind_key k beforeColon afterColon
      (v.chars (after ++ ',' :: (before ++ '\x22' :: es.chars rest)))
    have hvalueLength := length_behind_tree v after before (c := ',') ('\x22' :: es.chars rest)
    rw [Entries.chars] at hfuel
    rw [List.length_cons] at hvalueLength
    have htail d' := readMembers_eq_ok (d := d') es (show (es.chars rest).length < fuel by omega)
    rw [Entries.chars, readMembers_entry (l := l) k beforeColon afterColon hends]
    simp only [nextMember_quote, Except.ok.injEq, Next.more.injEq, reduceCtorEq,
      false_and, false_or, exists_eq_left', htail, fillEntries, Option.bind_eq_some_iff]
    constructor
    · rintro ⟨key, d', hkey, hput, hfill, hmissing, rfl⟩
      exact ⟨⟨key, hkey, d', hput, hfill⟩, hmissing, rfl⟩
    · rintro ⟨⟨key, hkey, d', hput, hfill⟩, hmissing, rfl⟩
      exact ⟨key, d', hkey, hput, hfill, hmissing, rfl⟩

theorem closeEarly_eq_ok (ss : List (Slot δ)) {count : Nat} :
    shape.closeEarly count (ss.map Slot.field) d t = .ok (e, r) ↔
    fillElements ss .nil d = some e ∧ t = r := by
  unfold Shape.closeEarly fillElements
  by_cases hall : ss.all (·.field.isOptional) = true
  · have hnone : (ss.map Slot.field).findIdx? (fun f => !f.isOptional) = none := by
      rw [List.findIdx?_eq_none_iff]
      intro f hf
      obtain ⟨s, hs, rfl⟩ := List.mem_map.mp hf
      rw [List.all_eq_true.mp hall s hs]
      rfl
    simp [hnone, hall]
  · have hsome : (ss.map Slot.field).findIdx? (fun f => !f.isOptional) ≠ none := by
      intro hnone
      rw [List.findIdx?_eq_none_iff] at hnone
      apply hall
      rw [List.all_eq_true]
      intro s hs
      simpa using hnone s.field (List.mem_map_of_mem hs)
    obtain ⟨i, hi⟩ := Option.ne_none_iff_exists'.mp hsome
    simp [hi, hall]

theorem readElements_done (ss : List (Slot δ)) {count : Nat} :
    shape.readElements levels count d (.ok (.done t)) (ss.map Slot.field) = .ok (e, r) ↔
      fillElements ss .nil d = some e ∧ t = r := by
  cases ss with
  | nil => simp [Shape.readElements, fillElements]
  | cons s ss => exact closeEarly_eq_ok (s :: ss)

theorem closeList_done (w : Space) (rest : List Char) :
    closeList (w ++ ']' :: rest) = .ok rest := by
  rw [closeList, skipSpace_space, skipSpace_cons (by decide)]
  rfl

theorem closeList_comma (w : Space) (t : List Char) :
    ∃ f, closeList (w ++ ',' :: t) = .error f := by
  rw [closeList, skipSpace_space, skipSpace_cons (by decide)]
  split
  · exact ⟨_, rfl⟩
  · rename_i heq
    cases heq
  · split
    · exact ⟨_, rfl⟩
    · exact ⟨_, rfl⟩
  · exact ⟨_, rfl⟩

theorem next_done (fields : List (Field δ)) (w : Space) (rest : List Char) :
    (if fields.isEmpty then (closeList (w ++ ']' :: rest)).map Next.done
      else nextElement (w ++ ']' :: rest)) = .ok (.done rest) := by
  rw [closeList_done, nextElement_done w.isSpace]
  exact ite_self _

theorem readElements_slot (s : Slot δ) (ss : List (Slot δ)) {count : Nat} {v : Tree} {x : Value}
    {u : List Char} (hends : v.EndsAt u) (hx : v.value? = some x) (hdepth : x.depth ≤ levels) :
    shape.readElements levels count d (.ok (.more (v.chars u))) ((s :: ss).map Slot.field) =
      .ok (e, r) ↔
      ∃ a, s.accept x = some a ∧
        shape.readElements levels (count + 1) (s.set a d)
          (if (ss.map Slot.field).isEmpty then (closeList u).map .done else nextElement u)
            (ss.map Slot.field) =
          .ok (e, r) := by
  have hread put u' : s.field.read levels (v.chars u) = .ok (put, u') ↔
      (∃ a, s.accept x = some a ∧ s.set a = put) ∧ u' = u := by
    rw [← s.take_of_value hx hdepth]
    exact s.read_eq_ok .none hends
  rw [List.map_cons, Shape.readElements_eq_ok]
  constructor
  · rintro ⟨put, u', h, hrest⟩
    obtain ⟨⟨a, ha, rfl⟩, rfl⟩ := (hread put u').mp h
    exact ⟨a, ha, hrest⟩
  · rintro ⟨a, ha, hrest⟩
    exact ⟨s.set a, u, (hread _ _).mpr ⟨⟨a, ha, rfl⟩, rfl⟩, hrest⟩

theorem fillElements_nil {es : Elements} {vs : Values} (h : es.values? = some vs) (d : δ) :
    fillElements [] vs d = none := by
  cases es with
  | last v after =>
    obtain ⟨x, -, rfl⟩ := Option.map_eq_some_iff.mp h
    rfl
  | cons v after before es =>
    obtain ⟨x, -, hrest⟩ := Option.bind_eq_some_iff.mp h
    obtain ⟨xs, -, rfl⟩ := Option.map_eq_some_iff.mp hrest
    rfl

theorem readElements_elements : (ss : List (Slot δ)) → (es : Elements) → {vs : Values} → {d : δ} →
    {count : Nat} → es.values? = some vs → vs.depth ≤ levels →
    (shape.readElements levels count d (.ok (.more (es.chars rest))) (ss.map Slot.field) =
      .ok (e, r) ↔
      fillElements ss vs d = some e ∧ rest = r)
  | [], es, vs, d, count, hvs, _ => by simp [Shape.readElements, fillElements_nil hvs]
  | s :: ss, .last v after, vs, d, count, hvs, hdepth => by
    obtain ⟨x, hx, rfl⟩ := Option.map_eq_some_iff.mp hvs
    have hends := v.endsAt_space after (c := ']') (by decide) rest
    rw [Elements.chars, readElements_slot s ss hends hx (Nat.max_le.mp hdepth).1]
    simp only [next_done, readElements_done, fillElements, Option.bind_eq_some_iff, ← and_assoc,
      exists_and_right]
  | s :: ss, .cons v after before es, vs, d, count, hvs, hdepth => by
    obtain ⟨x, hx, hvs⟩ := Option.bind_eq_some_iff.mp hvs
    obtain ⟨vs, hes, rfl⟩ := Option.map_eq_some_iff.mp hvs
    obtain ⟨hvalue, hrest⟩ := Nat.max_le.mp hdepth
    have hends := v.endsAt_space after (c := ',') (by decide) (before ++ es.chars rest)
    -- Behind the last wanted element a comma is refused, whatever comes after it.
    have hnext d' : shape.readElements levels (count + 1) d'
        (if (ss.map Slot.field).isEmpty then
          (closeList (after ++ ',' :: (before ++ es.chars rest))).map Next.done
          else nextElement (after ++ ',' :: (before ++ es.chars rest))) (ss.map Slot.field) =
            .ok (e, r) ↔
        fillElements ss vs d' = some e ∧ rest = r := by
      have htail : shape.readElements levels (count + 1) d' (.ok (.more (es.chars rest)))
          (ss.map Slot.field) =
            .ok (e, r) ↔
          fillElements ss vs d' = some e ∧ rest = r := readElements_elements ss es hes hrest
      rw [← htail, nextElement_elements]
      cases ss with
      | nil =>
        obtain ⟨f, hf⟩ := closeList_comma after (before ++ es.chars rest)
        simp [hf, Except.map, Shape.readElements]
      | cons s' ss => rfl
    rw [Elements.chars, readElements_slot s ss hends hx hvalue]
    simp only [hnext, fillElements, Option.bind_eq_some_iff, ← and_assoc, exists_and_right]

end Layout

end HostReach.Json
