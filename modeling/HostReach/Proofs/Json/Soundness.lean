import HostReach.Proofs.Json.Grammar
import HostReach.Proofs.Json.Levels

/-!
What the readers accept is JSON: a value that is passed over is a tree, and a value that is read is
a tree that stands for it.
-/
namespace HostReach.Json

variable {t u r : List Char}

def Space.none : Space := ⟨[], by simp⟩

def Space.append (v w : Space) : Space where
  chars := v ++ w
  isSpace := by
    intro c hc
    rcases List.mem_append.mp hc with hc | hc
    · exact v.isSpace c hc
    · exact w.isSpace c hc

theorem Space.append_append (v w : Space) (t : List Char) :
    (v.append w : List Char) ++ t = v ++ (w ++ t) := List.append_assoc _ _ _

theorem exists_space (t : List Char) : ∃ w : Space, t = w ++ skipSpace t :=
  ⟨⟨t.takeWhile isSpace, List.all_eq_true.mp List.all_takeWhile⟩,
    List.takeWhile_append_dropWhile.symm⟩

theorem exists_space_of_skipSpace (h : skipSpace t = u) : ∃ w : Space, t = w ++ u :=
  h ▸ exists_space t

theorem readWord_eq_ok {word : List Char} : readWord word t = .ok r ↔ t = word ++ r := by
  induction word generalizing t with
  | nil => simp [readWord]
  | cons c word ih =>
    cases t with
    | nil => simp [readWord]
    | cons d t =>
      rw [readWord]
      by_cases hd : d = c
      · simp [hd, ih]
      · simp [hd]

theorem exists_space_of_readColon (h : readColon t = .ok r) : ∃ w : Space, t = w ++ ':' :: r := by
  unfold readColon at h
  split at h
  · cases h
  · rename_i hcolon
    cases h
    exact exists_space_of_skipSpace hcolon
  · cases h

theorem firstElement_eq_ok {next : Next} (h : firstElement t = .ok next) :
    match next with
    | .done r => ∃ w : Space, t = w ++ ']' :: r
    | .more u => ∃ w : Space, t = w ++ u := by
  unfold firstElement at h
  split at h
  · cases h
  · rename_i hclose
    cases h
    exact exists_space_of_skipSpace hclose
  · cases h
    exact exists_space t

theorem nextElement_eq_ok {next : Next} (h : nextElement t = .ok next) :
    match next with
    | .done r => ∃ w : Space, t = w ++ ']' :: r
    | .more u => ∃ after before : Space, t = after ++ ',' :: (before ++ u) := by
  unfold nextElement at h
  split at h
  · cases h
  · rename_i hclose
    cases h
    exact exists_space_of_skipSpace hclose
  · rename_i u hcomma
    obtain ⟨after, hafter⟩ := exists_space_of_skipSpace hcomma
    obtain ⟨before, hbefore⟩ := exists_space u
    split at h
    · cases h
    · cases h
    · cases h
      exact ⟨after, before, hbefore ▸ hafter⟩
  · cases h

theorem skipNextElement_eq_ok {next : Next} (h : skipNextElement t = .ok next) :
    match next with
    | .done r => ∃ w : Space, t = w ++ ']' :: r
    | .more u => ∃ w : Space, t = w ++ ',' :: u := by
  unfold skipNextElement at h
  split at h
  · cases h
  · rename_i hclose
    cases h
    exact exists_space_of_skipSpace hclose
  · rename_i hcomma
    cases h
    exact exists_space_of_skipSpace hcomma
  · cases h

theorem firstMember_eq_ok {next : Next} (h : firstMember t = .ok next) :
    match next with
    | .done r => ∃ w : Space, t = w ++ '\x7d' :: r
    | .more u => ∃ w : Space, t = w ++ '\x22' :: u := by
  unfold firstMember at h
  split at h
  · cases h
  · rename_i hclose
    cases h
    exact exists_space_of_skipSpace hclose
  · rename_i hquote
    cases h
    exact exists_space_of_skipSpace hquote
  · cases h

theorem skipNextMember_eq_ok {next : Next} (h : skipNextMember t = .ok next) :
    match next with
    | .done r => ∃ w : Space, t = w ++ '\x7d' :: r
    | .more u => ∃ after before : Space, t = after ++ ',' :: (before ++ '\x22' :: u) := by
  unfold skipNextMember at h
  split at h
  · cases h
  · rename_i hclose
    cases h
    exact exists_space_of_skipSpace hclose
  · rename_i hcomma
    obtain ⟨after, hafter⟩ := exists_space_of_skipSpace hcomma
    split at h
    · cases h
    · rename_i hquote
      obtain ⟨before, hbefore⟩ := exists_space_of_skipSpace hquote
      cases h
      exact ⟨after, before, hbefore ▸ hafter⟩
    · cases h
  · cases h

theorem nextMember_eq_ok {next : Next} (h : nextMember t = .ok next) :
    (∃ u, skipSpace t = '\x7d' :: u ∧ next = .done u) ∨
      ∃ u v, skipSpace t = ',' :: u ∧ skipSpace u = '\x22' :: v ∧ next = .more v := by
  unfold nextMember at h
  split at h
  · cases h
  · rename_i hclose
    cases h
    exact .inl ⟨_, hclose, rfl⟩
  · rename_i hcomma
    split at h
    · cases h
    · rename_i hquote
      cases h
      exact .inr ⟨_, _, hcomma, hquote, rfl⟩
    · cases h
    · cases h
  · cases h

/-- What is read behind a member would be passed over behind it. -/
theorem skipNextMember_of_nextMember {next : Next} (h : nextMember t = .ok next) :
    skipNextMember t = .ok next := by
  rcases nextMember_eq_ok h with ⟨u, hclose, rfl⟩ | ⟨u, v, hcomma, hquote, rfl⟩
  · simp only [skipNextMember, hclose]
  · simp only [skipNextMember, hcomma, hquote]

/-- A tree stands there behind white space, and nothing continues it. -/
def TreeAt (t r : List Char) (v : Tree) : Prop := (∃ w : Space, t = w ++ v.chars r) ∧ v.EndsAt r

theorem treeAt_of_skipSpace {v : Tree} (h : skipSpace t = v.chars r) (hv : v.EndsAt r) :
    TreeAt t r v :=
  ⟨exists_space_of_skipSpace h, hv⟩

structure SkipsTree (fuel : Nat) : Prop where
  value {t r : List Char} : skipValue fuel t = .ok r → ∃ v, TreeAt t r v
  elements {t r : List Char} : skipElements fuel t = .ok r →
    ∃ (w : Space) (es : Elements), t = w ++ es.chars r
  members {t r : List Char} : skipMembers fuel t = .ok r → ∃ es : Entries, t = es.chars r

variable {fuel : Nat}

theorem SkipsTree.value_succ (ih : SkipsTree fuel) (h : skipValue (fuel + 1) t = .ok r) :
    ∃ v, TreeAt t r v := by
  rw [skipValue] at h
  split at h
  · cases h
  · rename_i hn
    rw [readWord_eq_ok.mp h] at hn
    exact ⟨.null, treeAt_of_skipSpace hn trivial⟩
  · rename_i ht
    rw [readWord_eq_ok.mp h] at ht
    exact ⟨.bool true, treeAt_of_skipSpace ht trivial⟩
  · rename_i hf
    rw [readWord_eq_ok.mp h] at hf
    exact ⟨.bool false, treeAt_of_skipSpace hf trivial⟩
  · rename_i hminus
    obtain ⟨n, rfl, hn⟩ := exists_numeral_of_skipNumber h
    exact ⟨.number { n with negative := true }, treeAt_of_skipSpace hminus hn⟩
  · rename_i hquote
    obtain ⟨gs, hgs⟩ := exists_literal_of_skipString h
    rw [List.drop_zero] at hgs
    rw [hgs] at hquote
    exact ⟨.text gs, treeAt_of_skipSpace hquote trivial⟩
  · rename_i hopen
    split at h
    · cases h
    · rename_i hfirst
      cases h
      obtain ⟨inside, rfl⟩ := firstElement_eq_ok hfirst
      exact ⟨.emptyArray inside, treeAt_of_skipSpace hopen trivial⟩
    · rename_i hfirst
      obtain ⟨before, rfl⟩ := firstElement_eq_ok hfirst
      obtain ⟨more, es, rfl⟩ := ih.elements h
      rw [← Space.append_append] at hopen
      exact ⟨.array (before.append more) es, treeAt_of_skipSpace hopen trivial⟩
  · rename_i hopen
    split at h
    · cases h
    · rename_i hfirst
      cases h
      obtain ⟨inside, rfl⟩ := firstMember_eq_ok hfirst
      exact ⟨.emptyObject inside, treeAt_of_skipSpace hopen trivial⟩
    · rename_i hfirst
      obtain ⟨before, rfl⟩ := firstMember_eq_ok hfirst
      obtain ⟨es, rfl⟩ := ih.members h
      exact ⟨.object before es, treeAt_of_skipSpace hopen trivial⟩
  · rename_i hdigit
    split at h
    · obtain ⟨n, hu, hn⟩ := exists_numeral_of_skipNumber h
      rw [hu] at hdigit
      exact ⟨.number { n with negative := false }, treeAt_of_skipSpace hdigit hn⟩
    · cases h

theorem SkipsTree.elements_succ (ih : SkipsTree fuel) (h : skipElements (fuel + 1) t = .ok r) :
    ∃ (w : Space) (es : Elements), t = w ++ es.chars r := by
  rw [skipElements] at h
  split at h
  · cases h
  · rename_i hskip
    obtain ⟨v, ⟨w, rfl⟩, -⟩ := ih.value hskip
    split at h
    · cases h
    · rename_i hnext
      cases h
      obtain ⟨after, rfl⟩ := skipNextElement_eq_ok hnext
      exact ⟨w, .last v after, rfl⟩
    · rename_i hnext
      obtain ⟨after, rfl⟩ := skipNextElement_eq_ok hnext
      obtain ⟨before, es, rfl⟩ := ih.elements h
      exact ⟨w, .cons v after before es, rfl⟩

theorem SkipsTree.members_succ (ih : SkipsTree fuel) (h : skipMembers (fuel + 1) t = .ok r) :
    ∃ es : Entries, t = es.chars r := by
  rw [skipMembers] at h
  split at h
  · cases h
  · rename_i hkey
    obtain ⟨k, hk⟩ := exists_literal_of_skipString hkey
    rw [List.drop_zero] at hk
    subst hk
    split at h
    · cases h
    · rename_i hcolon
      obtain ⟨beforeColon, rfl⟩ := exists_space_of_readColon hcolon
      split at h
      · cases h
      · rename_i hskip
        obtain ⟨v, ⟨afterColon, rfl⟩, -⟩ := ih.value hskip
        split at h
        · cases h
        · rename_i hnext
          cases h
          obtain ⟨after, rfl⟩ := skipNextMember_eq_ok hnext
          exact ⟨.last k beforeColon afterColon v after, rfl⟩
        · rename_i hnext
          obtain ⟨after, before, rfl⟩ := skipNextMember_eq_ok hnext
          obtain ⟨es, rfl⟩ := ih.members h
          exact ⟨.cons k beforeColon afterColon v after before es, rfl⟩

theorem skipsTree (fuel : Nat) : SkipsTree fuel := by
  induction fuel with
  | zero => exact ⟨by simp [skipValue], by simp [skipElements], by simp [skipMembers]⟩
  | succ fuel ih => exact ⟨ih.value_succ, ih.elements_succ, ih.members_succ⟩

/-- What is passed over is a tree. -/
theorem exists_tree_of_skip (h : skip t = .ok r) : ∃ v, TreeAt t r v := (skipsTree _).value h

theorem map_eq_ok {ε α β : Type} {x : Except ε α} {f : α → β} {b : β} :
    x.map f = .ok b ↔ ∃ a, x = .ok a ∧ f a = b := by
  cases x <;> simp [Except.map]

structure ReadsTree (fuel : Nat) : Prop where
  value {levels : Nat} {t r : List Char} {x : Value} : readValue fuel levels t = .ok (x, r) →
    ∃ v, TreeAt t r v ∧ v.value? = some x
  elements {levels : Nat} {t r : List Char} {xs : Values} : readElements fuel levels t =
    .ok (xs, r) →
    ∃ (w : Space) (es : Elements), t = w ++ es.chars r ∧ es.values? = some xs
  members {levels : Nat} {t r : List Char} {ms : Members} : readMembers fuel levels t =
    .ok (ms, r) →
    ∃ es : Entries, t = es.chars r ∧ es.members? = some ms

variable {levels : Nat}

theorem ReadsTree.array (ih : ReadsTree fuel) {x : Value} (hopen : skipSpace t = '[' :: u)
    (h : ReadsArray fuel levels u x r) : ∃ v, TreeAt t r v ∧ v.value? = some x := by
  rcases h with ⟨hfirst, rfl⟩ | ⟨u', xs, hfirst, hread, rfl⟩
  · obtain ⟨inside, rfl⟩ := firstElement_eq_ok hfirst
    exact ⟨.emptyArray inside, treeAt_of_skipSpace hopen trivial, rfl⟩
  · obtain ⟨before, rfl⟩ := firstElement_eq_ok hfirst
    obtain ⟨more, es, rfl, hes⟩ := ih.elements hread
    rw [← Space.append_append] at hopen
    exact ⟨.array (before.append more) es, treeAt_of_skipSpace hopen trivial,
      by simp [Tree.value?, hes]⟩

theorem ReadsTree.object (ih : ReadsTree fuel) {x : Value} (hopen : skipSpace t = '\x7b' :: u)
    (h : ReadsObject fuel levels u x r) : ∃ v, TreeAt t r v ∧ v.value? = some x := by
  rcases h with ⟨hfirst, rfl⟩ | ⟨u', ms, hfirst, hread, rfl⟩
  · obtain ⟨inside, rfl⟩ := firstMember_eq_ok hfirst
    exact ⟨.emptyObject inside, treeAt_of_skipSpace hopen trivial, rfl⟩
  · obtain ⟨before, rfl⟩ := firstMember_eq_ok hfirst
    obtain ⟨es, rfl, hes⟩ := ih.members hread
    exact ⟨.object before es, treeAt_of_skipSpace hopen trivial, by simp [Tree.value?, hes]⟩

theorem exists_number {negative : Bool} {x : Value}
    (h : (readNumber negative u).map (fun p => (p.1.value, p.2)) = .ok (x, r)) :
    ∃ n : Numeral, n.negative = negative ∧ u = n.unsigned r ∧ n.EndsAt r ∧
      (Tree.number n).value? = some x := by
  obtain ⟨⟨y, r'⟩, hread, hy⟩ := map_eq_ok.mp h
  cases hy
  obtain ⟨n, hneg, hu, hn, hvalue⟩ := exists_numeral_of_readNumber hread
  exact ⟨n, hneg, hu, hn, by simp [Tree.value?, hvalue]⟩

theorem ReadsTree.value_succ (ih : ReadsTree fuel) {x : Value}
    (h : readValue (fuel + 1) levels t = .ok (x, r)) : ∃ v, TreeAt t r v ∧ v.value? = some x := by
  have hread := h
  rw [readValue] at h
  split at h
  · cases h
  · rename_i hn
    obtain ⟨r', hword, hx⟩ := map_eq_ok.mp h
    cases hx
    rw [readWord_eq_ok.mp hword] at hn
    exact ⟨.null, treeAt_of_skipSpace hn trivial, rfl⟩
  · rename_i ht
    obtain ⟨r', hword, hx⟩ := map_eq_ok.mp h
    cases hx
    rw [readWord_eq_ok.mp hword] at ht
    exact ⟨.bool true, treeAt_of_skipSpace ht trivial, rfl⟩
  · rename_i hf
    obtain ⟨r', hword, hx⟩ := map_eq_ok.mp h
    cases hx
    rw [readWord_eq_ok.mp hword] at hf
    exact ⟨.bool false, treeAt_of_skipSpace hf trivial, rfl⟩
  · rename_i hminus
    obtain ⟨n, hneg, rfl, hn, hvalue⟩ := exists_number h
    refine ⟨.number n, treeAt_of_skipSpace ?_ hn, hvalue⟩
    rw [hminus, Tree.chars, Numeral.text, if_pos hneg]
  · rename_i hquote
    obtain ⟨⟨s, r'⟩, hstring, hx⟩ := map_eq_ok.mp h
    cases hx
    obtain ⟨gs, rfl, hgs⟩ := exists_literal_of_readString hstring
    exact ⟨.text gs, treeAt_of_skipSpace hquote trivial, by simp [Tree.value?, hgs]⟩
  · rename_i hopen
    obtain ⟨l, rfl, harray⟩ := (readValue_array_eq_ok hopen).mp hread
    exact ih.array hopen harray
  · rename_i hopen
    obtain ⟨l, rfl, hobject⟩ := (readValue_object_eq_ok hopen).mp hread
    exact ih.object hopen hobject
  · rename_i hdigit
    split at h
    · obtain ⟨n, hneg, hu, hn, hvalue⟩ := exists_number h
      refine ⟨.number n, treeAt_of_skipSpace ?_ hn, hvalue⟩
      rw [hdigit, hu, Tree.chars, Numeral.text, if_neg (by simp [hneg])]
    · cases h

theorem ReadsTree.elements_succ (ih : ReadsTree fuel) {xs : Values}
    (h : readElements (fuel + 1) levels t = .ok (xs, r)) :
    ∃ (w : Space) (es : Elements), t = w ++ es.chars r ∧ es.values? = some xs := by
  obtain ⟨x, u, hread, hnext⟩ := readElements_eq_ok.mp h
  obtain ⟨v, ⟨⟨w, rfl⟩, -⟩, hv⟩ := ih.value hread
  rcases hnext with ⟨hnext, rfl⟩ | ⟨u', xs', hnext, htail, rfl⟩
  · obtain ⟨after, rfl⟩ := nextElement_eq_ok hnext
    exact ⟨w, .last v after, rfl, by simp [Elements.values?, hv]⟩
  · obtain ⟨after, before, rfl⟩ := nextElement_eq_ok hnext
    obtain ⟨more, es, rfl, hes⟩ := ih.elements htail
    rw [← Space.append_append]
    exact ⟨w, .cons v after (before.append more) es, rfl, by simp [Elements.values?, hv, hes]⟩

theorem ReadsTree.members_succ (ih : ReadsTree fuel) {ms : Members}
    (h : readMembers (fuel + 1) levels t = .ok (ms, r)) :
    ∃ es : Entries, t = es.chars r ∧ es.members? = some ms := by
  obtain ⟨k, u₁, u₂, x, u, hkey, hcolon, hread, hnext⟩ := readMembers_eq_ok.mp h
  obtain ⟨gs, rfl, hgs⟩ := exists_literal_of_readString hkey
  obtain ⟨beforeColon, rfl⟩ := exists_space_of_readColon hcolon
  obtain ⟨v, ⟨⟨afterColon, rfl⟩, -⟩, hv⟩ := ih.value hread
  rcases hnext with ⟨hnext, rfl⟩ | ⟨u', ms', hnext, htail, rfl⟩
  · obtain ⟨after, rfl⟩ := skipNextMember_eq_ok (skipNextMember_of_nextMember hnext)
    exact ⟨.last gs beforeColon afterColon v after, rfl, by simp [Entries.members?, hgs, hv]⟩
  · obtain ⟨after, before, rfl⟩ := skipNextMember_eq_ok (skipNextMember_of_nextMember hnext)
    obtain ⟨es, rfl, hes⟩ := ih.members htail
    exact ⟨.cons gs beforeColon afterColon v after before es, rfl,
      by simp [Entries.members?, hgs, hv, hes]⟩

theorem readsTree (fuel : Nat) : ReadsTree fuel := by
  induction fuel with
  | zero => exact ⟨by simp [readValue], by simp [readElements], by simp [readMembers]⟩
  | succ fuel ih => exact ⟨ih.value_succ, ih.elements_succ, ih.members_succ⟩

end HostReach.Json
