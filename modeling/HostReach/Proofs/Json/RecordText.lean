import HostReach.Proofs.Json.Slot

/-!
Which texts a record is read from: objects whose members fill it, and arrays whose elements do.
Nothing but JSON is read; a member with an unknown key need only be JSON.
-/
namespace HostReach.Json.Layout

variable {δ : Type} {shape : Shape δ} {levels : Nat} {d e empty : δ} {t u r rest : List Char}

/-- What a slot holds after some reading it held before, or one of the trees stands for it. -/
def DrawnFrom (l : Layout shape) (levels : Nat) (ts : List Tree) (d e : δ) : Prop :=
  ∀ s ∈ l.slots, s.get e = s.get d ∨
    ∃ v ∈ ts, ∃ x a, v.value? = some x ∧ x.depth ≤ levels ∧ s.accept x = some a ∧ s.get e = some a

theorem DrawnFrom.refl (l : Layout shape) (levels : Nat) (ts : List Tree)
    (d : δ) : l.DrawnFrom levels ts d d :=
  fun _ _ => .inl rfl

theorem DrawnFrom.cons {l : Layout shape} {v : Tree} {ts : List Tree} {d' : δ}
    (h : l.DrawnFrom levels [v] d d') (hrest : l.DrawnFrom levels ts d' e) :
    l.DrawnFrom levels (v :: ts) d e := by
  intro s hs
  rcases hrest s hs with heq | ⟨w, hw, hdrawn⟩
  · rw [heq]
    refine (h s hs).imp_right fun ⟨w, hw, hdrawn⟩ => ⟨w, ?_, hdrawn⟩
    exact List.mem_cons.mpr (.inl (List.mem_singleton.mp hw))
  · exact .inr ⟨w, List.mem_cons_of_mem v hw, hdrawn⟩

theorem drawnFrom_set {l : Layout shape} {s : Slot δ} (hs : s ∈ l.slots) {v : Tree} {x : Value}
    {a : s.Content} (hx : v.value? = some x) (hdepth : x.depth ≤ levels)
    (ha : s.accept x = some a) :
    l.DrawnFrom levels [v] d (s.set a d) := by
  intro s' hs'
  rcases eq_or_apart hs hs' with rfl | hapart
  · exact .inr ⟨v, List.mem_singleton.mpr rfl, x, a, hx, hdepth, ha, s.get_set a d⟩
  · exact .inl (hapart.get_set a d)

theorem exists_tree_of_readMember (l : Layout shape) {key : String}
    (h : shape.readMember levels key d t = .ok (e, r)) :
    ∃ (beforeColon afterColon : Space) (v : Tree),
    t = beforeColon ++ ':' :: (afterColon ++ v.chars r) ∧
      l.DrawnFrom levels [v] d e := by
  unfold Shape.readMember at h
  rw [l.field?_eq] at h
  cases hslot : l.slot? key with
  | none =>
    simp only [hslot, Option.map_none] at h
    split at h
    · cases h
    · rename_i hcolon
      obtain ⟨beforeColon, rfl⟩ := exists_space_of_readColon hcolon
      obtain ⟨r, hskip, heq⟩ := map_eq_ok.mp h
      cases heq
      obtain ⟨v, ⟨afterColon, rfl⟩, -⟩ := exists_tree_of_skip hskip
      exact ⟨beforeColon, afterColon, v, rfl, .refl l levels [v] d⟩
  | some s =>
    simp only [hslot, Option.map_some] at h
    split at h
    · cases h
    · split at h
      · cases h
      · rename_i hcolon
        obtain ⟨beforeColon, rfl⟩ := exists_space_of_readColon hcolon
        obtain ⟨⟨put, r⟩, hread, heq⟩ := map_eq_ok.mp h
        obtain ⟨afterColon, v, x, a, rfl, hx, hdepth, ha, rfl⟩ := s.exists_tree hread
        cases heq
        exact ⟨beforeColon, afterColon, v, rfl, drawnFrom_set (slot?_eq_some hslot).1 hx hdepth ha⟩

theorem exists_entries_of_readMembers (l : Layout shape) {fuel : Nat}
    (h : shape.readMembers fuel levels d t = .ok (e, r)) :
    ∃ es : Entries, t = es.chars r ∧ l.DrawnFrom levels es.trees d e := by
  induction fuel generalizing d t with
  | zero => cases h
  | succ fuel ih =>
    obtain ⟨key, u, d', u', hkey, hmember, hnext⟩ := Shape.readMembers_eq_ok.mp h
    obtain ⟨k, rfl, -⟩ := exists_literal_of_readString hkey
    obtain ⟨beforeColon, afterColon, v, rfl, hdrawn⟩ := l.exists_tree_of_readMember hmember
    rcases hnext with ⟨hnext, -, rfl⟩ | ⟨u'', hnext, hread⟩
    · obtain ⟨after, rfl⟩ := skipNextMember_eq_ok (skipNextMember_of_nextMember hnext)
      exact ⟨.last k beforeColon afterColon v after, rfl, hdrawn⟩
    · obtain ⟨after, before, rfl⟩ := skipNextMember_eq_ok (skipNextMember_of_nextMember hnext)
      obtain ⟨es, rfl, hrest⟩ := ih hread
      exact ⟨.cons k beforeColon afterColon v after before es, rfl, hdrawn.cons hrest⟩

theorem closeList_eq_ok (h : closeList t = .ok r) : ∃ w : Space, t = w ++ ']' :: r := by
  unfold closeList at h
  split at h
  · cases h
  · rename_i hclose
    cases h
    exact exists_space_of_skipSpace hclose
  · split at h
    · cases h
    · cases h
  · cases h

theorem exists_space_of_next_done {fields : List (Field δ)}
    (h : (if fields.isEmpty then (closeList t).map Next.done else nextElement t) = .ok (.done r)) :
    ∃ w : Space, t = w ++ ']' :: r := by
  split at h
  · obtain ⟨r, hclose, heq⟩ := map_eq_ok.mp h
    cases heq
    exact closeList_eq_ok hclose
  · exact nextElement_eq_ok h

theorem exists_spaces_of_next_more {fields : List (Field δ)} {u : List Char}
    (h : (if fields.isEmpty then (closeList t).map Next.done else nextElement t) = .ok (.more u)) :
    ∃ after before : Space, t = after ++ ',' :: (before ++ u) := by
  split at h
  · obtain ⟨r, -, heq⟩ := map_eq_ok.mp h
    cases heq
  · exact nextElement_eq_ok h

theorem readElements_error (f : Fault) (count : Nat) (fields : List (Field δ)) :
    shape.readElements levels count d (.error f) fields = .error f := by
  cases fields <;> rfl

theorem eq_of_fillElements_nil {ss : List (Slot δ)}
    (h : fillElements ss .nil d = some e) : d = e := by
  unfold fillElements at h
  split at h
  · exact Option.some.inj h
  · cases h

theorem exists_elements_of_readElements (l : Layout shape) {count : Nat} {ss : List (Slot δ)}
    (hslots : ∀ s ∈ ss, s ∈ l.slots)
    (h : shape.readElements levels count d (.ok (.more t)) (ss.map Slot.field) = .ok (e, r)) :
    ∃ (w : Space) (es : Elements) (vs : Values), t = w ++ es.chars r ∧ es.values? = some vs ∧
    vs.depth ≤ levels ∧
      l.DrawnFrom levels es.trees d e := by
  induction ss generalizing d t count with
  | nil => cases h
  | cons s ss ih =>
    obtain ⟨put, u, hread, hrest⟩ := Shape.readElements_eq_ok.mp h
    obtain ⟨w, v, x, a, rfl, hx, hdepth, ha, rfl⟩ := s.exists_tree hread
    have hdrawn : l.DrawnFrom levels [v] d (s.set a d) :=
      drawnFrom_set (hslots s (by simp)) hx hdepth ha
    cases hnext :
      (if (ss.map Slot.field).isEmpty then (closeList u).map Next.done else nextElement u) with
    | error f =>
      rw [hnext, readElements_error] at hrest
      cases hrest
    | ok next =>
      rw [hnext] at hrest
      cases next with
      | done r' =>
        obtain ⟨after, rfl⟩ := exists_space_of_next_done hnext
        obtain ⟨hfill, rfl⟩ := (readElements_done ss).mp hrest
        obtain rfl := eq_of_fillElements_nil hfill
        exact ⟨w, .last v after, .cons x .nil, rfl, by simp [Elements.values?, hx],
          Nat.max_le.mpr ⟨hdepth, Nat.zero_le _⟩, hdrawn⟩
      | more u' =>
        obtain ⟨after, before, rfl⟩ := exists_spaces_of_next_more hnext
        obtain ⟨more, es, vs, rfl, hes, hvs, hothers⟩ :=
          ih (fun s' hs' => hslots s' (by simp [hs'])) hrest
        rw [← Space.append_append]
        exact ⟨w, .cons v after (before.append more) es, .cons x vs, rfl,
          by simp [Elements.values?, hx, hes], Nat.max_le.mpr ⟨hdepth, hvs⟩, hdrawn.cons hothers⟩

theorem read_brace (h : skipSpace t = '\x7b' :: u) :
    shape.read empty (levels + 1) t =
      match firstMember u with
      | .error f => .error f
      | .ok (.done t) => shape.close empty t
      | .ok (.more t) => shape.readMembers (t.length + 1) levels empty t := by
  rw [Shape.read, h]
  rfl

theorem read_bracket (h : skipSpace t = '[' :: u) :
    shape.read empty (levels + 1) t =
      shape.readElements levels 0 empty (firstElement u) shape.fields := by
  rw [Shape.read, h]
  rfl

def fillTree (l : Layout shape) (levels : Nat) : Tree → δ → Option δ
  | .emptyObject _, d => some d
  | .object _ es, d => l.fillEntries levels es d
  | _, _ => none

theorem read_tree (l : Layout shape) {v : Tree} (hv : TreeAt t rest v)
    (hobject : v.isObject = true) :
    shape.read empty (levels + 1) t = .ok (e, r) ↔
      l.fillTree levels v empty = some e ∧ shape.missing? e = none ∧ r = rest := by
  obtain ⟨hspace, -⟩ := treeAt_iff.mp hv
  cases v with
  | emptyObject w =>
    rw [read_brace hspace, firstMember_done]
    simp only [Shape.close_eq_ok, fillTree, Option.some.injEq]
    constructor
    · rintro ⟨hmissing, rfl, rfl⟩
      exact ⟨rfl, hmissing, rfl⟩
    · rintro ⟨rfl, hmissing, rfl⟩
      exact ⟨hmissing, rfl, rfl⟩
  | object w es =>
    rw [read_brace hspace, firstMember_more w.isSpace]
    exact readMembers_eq_ok es (Nat.lt_succ_self _)
  | _ => cases hobject

theorem isObject_of_value {v : Tree} {ms : Members} (h : v.value? = some (.object ms)) :
    v.isObject = true := by
  cases v with
  | emptyObject w => rfl
  | object w es => rfl
  | number n =>
    obtain ⟨y, -, hy⟩ := Option.map_eq_some_iff.mp h
    cases y <;> cases hy
  | _ => simp [Tree.value?] at h

theorem fillTree_of_value (l : Layout shape) {v : Tree} {ms : Members}
    (hms : v.value? = some (.object ms)) (hdepth : ms.depth ≤ levels)
    (d : δ) : l.fillTree levels v d = l.fill ms d := by
  cases v with
  | emptyObject w =>
    cases hms
    rfl
  | object w es =>
    obtain ⟨ms, hes, heq⟩ := Option.map_eq_some_iff.mp hms
    cases heq
    exact fillEntries_of_members es hes hdepth d
  | _ => cases isObject_of_value hms

theorem fillTree_eq_some (l : Layout shape) {v : Tree} (hobject : v.isObject = true) :
    l.fillTree levels v d = some e ↔
      ∃ ms : List (String × Tree), v.named = ms.map (Prod.map some id) ∧
      l.fillWith (·.take levels) ms d = some e := by
  cases v with
  | emptyObject w =>
    constructor
    · intro h
      exact ⟨[], rfl, h⟩
    · rintro ⟨ms, hms, hfill⟩
      rwa [List.map_eq_nil_iff.mp hms.symm] at hfill
  | object w es =>
    constructor
    · intro h
      obtain ⟨ms, hms⟩ := exists_named_of_fillEntries es h
      exact ⟨ms, hms, (fillEntries_of_named es hms d).symm.trans h⟩
    · rintro ⟨ms, hms, hfill⟩
      exact (fillEntries_of_named es hms d).trans hfill
  | _ => cases hobject

theorem read_array (l : Layout shape) {v : Tree} {vs : Values} (hv : TreeAt t rest v)
    (hvs : v.value? = some (.array vs)) (hdepth : vs.depth ≤ levels) :
    shape.read empty (levels + 1) t = .ok (e, r) ↔
    fillElements l.slots vs empty = some e ∧ rest = r := by
  obtain ⟨hspace, -⟩ := treeAt_iff.mp hv
  cases v with
  | emptyArray w =>
    cases hvs
    rw [read_bracket hspace, firstElement_done, l.fields_eq]
    exact readElements_done l.slots
  | array w es =>
    obtain ⟨vs, hes, heq⟩ := Option.map_eq_some_iff.mp hvs
    cases heq
    rw [read_bracket hspace, firstElement_elements, l.fields_eq]
    exact readElements_elements l.slots es hes hdepth
  | number n =>
    obtain ⟨y, -, hy⟩ := Option.map_eq_some_iff.mp hvs
    cases y <;> cases hy
  | _ => simp [Tree.value?] at hvs

theorem exists_tree_of_bracket (l : Layout shape) (hopen : skipSpace t = '[' :: u)
    (h : shape.read empty (levels + 1) t = .ok (e, r)) :
    ∃ v, TreeAt t r v ∧ l.DrawnFrom levels v.children empty e ∧
      ∃ vs : Values, v.value? = some (.array vs) ∧ vs.depth ≤ levels := by
  rw [read_bracket hopen, l.fields_eq] at h
  cases hfirst : firstElement u with
  | error f =>
    rw [hfirst, readElements_error] at h
    cases h
  | ok next =>
    rw [hfirst] at h
    cases next with
    | done r' =>
      obtain ⟨hfill, rfl⟩ := (readElements_done l.slots).mp h
      obtain rfl := eq_of_fillElements_nil hfill
      obtain ⟨inside, rfl⟩ := firstElement_eq_ok hfirst
      exact ⟨.emptyArray inside, treeAt_of_skipSpace hopen trivial, .refl l levels [] empty,
        .nil, rfl, Nat.zero_le _⟩
    | more u' =>
      obtain ⟨before, rfl⟩ := firstElement_eq_ok hfirst
      obtain ⟨more, es, vs, rfl, hes, hdepth, hdrawn⟩ :=
        l.exists_elements_of_readElements (fun _ hs => hs) h
      rw [← Space.append_append] at hopen
      exact ⟨.array (before.append more) es, treeAt_of_skipSpace hopen trivial, hdrawn,
        vs, by simp [Tree.value?, hes], hdepth⟩

theorem exists_tree_of_brace (l : Layout shape) (hopen : skipSpace t = '\x7b' :: u)
    (h : shape.read empty (levels + 1) t = .ok (e, r)) :
    ∃ v, TreeAt t r v ∧ l.DrawnFrom levels v.children empty e ∧ v.isObject = true := by
  rw [read_brace hopen] at h
  split at h
  · cases h
  · rename_i hfirst
    obtain ⟨-, rfl, rfl⟩ := Shape.close_eq_ok.mp h
    obtain ⟨inside, rfl⟩ := firstMember_eq_ok hfirst
    exact ⟨.emptyObject inside, treeAt_of_skipSpace hopen trivial, .refl l levels [] empty, rfl⟩
  · rename_i hfirst
    obtain ⟨before, rfl⟩ := firstMember_eq_ok hfirst
    obtain ⟨es, rfl, hdrawn⟩ := l.exists_entries_of_readMembers h
    exact ⟨.object before es, treeAt_of_skipSpace hopen trivial, hdrawn, rfl⟩

/-- A record is read from an object, or from an array that has a value, and its slots have their
contents from there. -/
theorem exists_tree_of_read (l : Layout shape) (h : shape.read empty levels t = .ok (e, r)) :
    ∃ v, TreeAt t r v ∧ l.DrawnFrom (levels - 1) v.children empty e ∧
      (v.isObject ∨ ∃ vs : Values, v.value? = some (.array vs) ∧ vs.depth < levels) := by
  have hread := h
  unfold Shape.read at h
  split at h
  · cases h
  · rename_i hopen
    cases levels with
    | zero => cases h
    | succ levels =>
      obtain ⟨v, hv, hdrawn, vs, hvs, hdepth⟩ := l.exists_tree_of_bracket hopen hread
      exact ⟨v, hv, hdrawn, .inr ⟨vs, hvs, Nat.lt_succ_of_le hdepth⟩⟩
  · rename_i hopen
    cases levels with
    | zero => cases h
    | succ levels =>
      obtain ⟨v, hv, hdrawn, hobject⟩ := l.exists_tree_of_brace hopen hread
      exact ⟨v, hv, hdrawn, .inl hobject⟩
  · cases h

variable {s : String}

theorem ofText_document (d : Document) : shape.ofText empty d.text = .ok e ↔
    ∃ w : Space, shape.read empty maxDepth (d.before ++ d.tree.chars d.after) = .ok (e, ↑w) := by
  unfold Shape.ofText
  rw [finish_eq_ok, Document.text, String.toList_ofList]

theorem ofText_tree (l : Layout shape) (d : Document) (hobject : d.tree.isObject = true) :
    shape.ofText empty d.text = .ok e ↔
      l.fillTree (maxDepth - 1) d.tree empty = some e ∧ shape.missing? e = none := by
  have hread (w : Space) : shape.read empty maxDepth (d.before ++ d.tree.chars d.after) =
      .ok (e, ↑w) ↔
      l.fillTree (maxDepth - 1) d.tree empty = some e ∧ shape.missing? e = none ∧
      (w : List Char) = d.after :=
    l.read_tree (treeAt_document d) hobject
  rw [ofText_document]
  constructor
  · rintro ⟨w, h⟩
    obtain ⟨hfill, hmissing, -⟩ := (hread w).mp h
    exact ⟨hfill, hmissing⟩
  · rintro ⟨hfill, hmissing⟩
    exact ⟨d.after, (hread _).mpr ⟨hfill, hmissing, rfl⟩⟩

theorem ofText_named (l : Layout shape) (d : Document) (hobject : d.tree.isObject = true) :
    shape.ofText empty d.text = .ok e ↔
      ∃ ms : List (String × Tree), d.tree.named = ms.map (Prod.map some id) ∧
        l.fillWith (·.take (maxDepth - 1)) ms empty = some e ∧ shape.missing? e = none := by
  simp only [l.ofText_tree d hobject, l.fillTree_eq_some hobject, ← and_assoc, exists_and_right]

theorem ofText_object (l : Layout shape) {ms : Members} (h : Denotes s (.object ms))
    (hdepth : ms.depth < maxDepth) :
    shape.ofText empty s = .ok e ↔ l.fill ms empty = some e ∧ shape.missing? e = none := by
  obtain ⟨d, rfl, hms⟩ := h
  rw [l.ofText_tree d (isObject_of_value hms),
    l.fillTree_of_value hms (Nat.le_sub_one_of_lt hdepth)]

theorem ofText_array (l : Layout shape) {vs : Values} (h : Denotes s (.array vs))
    (hdepth : vs.depth < maxDepth) :
    shape.ofText empty s = .ok e ↔ fillElements l.slots vs empty = some e := by
  obtain ⟨d, rfl, hvs⟩ := h
  have hread (w : Space) : shape.read empty maxDepth (d.before ++ d.tree.chars d.after) =
      .ok (e, ↑w) ↔
      fillElements l.slots vs empty = some e ∧ (d.after : List Char) = w :=
    l.read_array (treeAt_document d) hvs (Nat.le_of_lt_succ hdepth)
  rw [ofText_document]
  constructor
  · rintro ⟨w, h⟩
    exact ((hread w).mp h).1
  · intro hfill
    exact ⟨d.after, (hread _).mpr ⟨hfill, rfl⟩⟩

/-- Nothing but JSON is read as a record, and but for objects only what has a value. -/
theorem exists_document_of_ofText (l : Layout shape) (h : shape.ofText empty s = .ok e) :
    ∃ d : Document, d.text = s ∧ l.DrawnFrom (maxDepth - 1) d.tree.children empty e ∧
      (d.tree.isObject ∨ ∃ vs : Values, d.tree.value? = some (.array vs) ∧
        vs.depth < maxDepth) := by
  obtain ⟨after, hread⟩ := finish_eq_ok.mp h
  obtain ⟨v, htree, hv⟩ := l.exists_tree_of_read hread
  obtain ⟨d, hs, rfl⟩ := exists_document htree
  exact ⟨d, hs, hv⟩

end HostReach.Json.Layout

namespace HostReach.Json

theorem Values.ofList_toList (vs : Values) : Values.ofList vs.toList = vs := by
  induction vs using Values.toList.induct with
  | case1 => rfl
  | case2 v vs ih => rw [Values.toList, Values.ofList, ih]

end HostReach.Json
