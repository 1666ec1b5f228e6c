import HostReach.Proofs.Json.Completeness
import HostReach.Proofs.Json.Tidy

/-!
What is written of a value is JSON that stands for it, on one line and indented, if its numbers are
whole.
-/
namespace HostReach.Json

variable {s : Style} {depth : Nat} {rest : List Char}

/-- Wherever the value is written, a tree that stands for it is. -/
def Value.WritesTree (s : Style) (v : Value) : Prop :=
  ∀ depth rest, EndsNumber rest → ∃ t : Tree, t.chars rest = v.write s depth ++ rest ∧
  t.value? = some v

theorem exists_numeral_of_digits {negative : Bool} {n : Nat} {x : Number} (hrest : EndsNumber rest)
    (hx : Number.ofInteger negative (Decimal.digits n) = some x) :
    ∃ m : Numeral, m.negative = negative ∧ m.unsigned rest = Decimal.digits n ++ rest ∧
    m.value? = some x := by
  obtain ⟨m, hnegative, htext, -, hm⟩ := exists_numeral_of_readNumber (readNumber_digits hrest hx)
  exact ⟨m, hnegative, htext.symm, hm⟩

theorem writesTree_int {n : Int} (hn : (Value.int n).isWhole) : (Value.int n).WritesTree s := by
  intro depth rest hrest
  simp only [Value.isWhole, Bool.and_eq_true, decide_eq_true_eq, Nat.pow_eq] at hn
  cases n with
  | ofNat n =>
    have hlt : n < Nat.pow 2 64 := by
      rw [Int.ofNat_eq_natCast] at hn
      rw [Nat.pow_eq]
      omega
    obtain ⟨m, hnegative, htext, hm⟩ := exists_numeral_of_digits hrest (ofInteger_digits hlt)
    refine ⟨.number m, ?_, by rw [Tree.value?, hm]; rfl⟩
    rw [write_int_ofNat, Tree.chars, Numeral.text, hnegative, if_neg Bool.false_ne_true, htext]
  | negSucc n =>
    have hle : n + 1 ≤ Nat.pow 2 63 := by
      rw [Nat.pow_eq]
      omega
    obtain ⟨m, hnegative, htext, hm⟩ :=
      exists_numeral_of_digits hrest (ofInteger_digits_negative (Nat.succ_ne_zero n) hle)
    refine ⟨.number m, ?_, by rw [Tree.value?, hm]; rfl⟩
    rw [write_int_negSucc, Tree.chars, Numeral.text, hnegative, if_pos rfl, htext]
    rfl

def Numeral.minusZero : Numeral := ⟨true, .zero, some .zero, none, fun _ => rfl⟩

theorem writesTree_minusZero : (Value.real (.zero true)).WritesTree s := fun _ _ _ =>
  ⟨.number .minusZero, rfl, rfl⟩

theorem exists_literal_of_escaped (t : String) (rest : List Char) :
    ∃ gs : Literal, Literal.text gs rest = t.toList.flatMap escaped ++ '\x22' :: rest ∧
      Literal.value? gs = some t := by
  obtain ⟨gs, htext, hgs⟩ := exists_literal_of_readString (readString_flatMap_escaped t rest)
  exact ⟨gs, htext.symm, hgs⟩

theorem writesTree_text (t : String) : (Value.text t).WritesTree s := by
  intro depth rest _
  obtain ⟨gs, htext, hgs⟩ := exists_literal_of_escaped t rest
  refine ⟨.text gs, ?_, by rw [Tree.value?, hgs]; rfl⟩
  simp [Tree.chars, htext, Value.write, quotedText]

def lineSpace (hs : s.IsSpaced) (depth : Nat) : Space :=
  ⟨s.lineBreak depth, Style.isSpace_lineBreak hs depth⟩

def Values.WritesElements (s : Style) (vs : Values) : Prop :=
  ∀ v : Value, v.WritesTree s → ∀ depth rest, ∃ es : Elements,
    es.chars rest = v.write s (depth + 1) ++ (vs.writeRest s depth ++ rest) ∧
    es.values? = some (.cons v vs)

theorem Values.writesElements_nil (hs : s.IsSpaced) : Values.nil.WritesElements s := by
  intro v hv depth rest
  obtain ⟨t, htext, ht⟩ := hv (depth + 1) _ (nil.endsNumber_writeRest s depth rest)
  refine ⟨.last t (lineSpace hs depth), ?_, by rw [Elements.values?, ht]; rfl⟩
  rw [← htext, Elements.chars, writeRest, List.append_assoc]
  rfl

theorem Values.writesElements_cons (hs : s.IsSpaced) {w : Value} {vs : Values} (hw : w.WritesTree s)
    (hvs : vs.WritesElements s) : (Values.cons w vs).WritesElements s := by
  intro v hv depth rest
  obtain ⟨t, htext, ht⟩ := hv (depth + 1) _ ((cons w vs).endsNumber_writeRest s depth rest)
  obtain ⟨es, hes, hvalues⟩ := hvs w hw depth rest
  refine ⟨.cons t .none (lineSpace hs (depth + 1)) es, ?_,
    by rw [Elements.values?, ht, hvalues]; rfl⟩
  rw [← htext, Elements.chars, hes, writeRest]
  simp [lineSpace, Space.none]

def Members.WritesEntries (s : Style) (ms : Members) : Prop :=
  ∀ k, ∀ v : Value, v.WritesTree s → ∀ depth rest, ∃ es : Entries,
    es.chars rest = ms.writeFrom s depth k v ++ rest ∧ es.members? = some (.cons k v ms)

def gapSpace (s : Style) : Space := ⟨s.gap, s.isSpace_gap⟩

theorem Members.writesEntries_nil (hs : s.IsSpaced) : Members.nil.WritesEntries s := by
  intro k v hv depth rest
  obtain ⟨t, htext, ht⟩ := hv (depth + 1) _ (nil.endsNumber_writeRest s depth rest)
  obtain ⟨gs, hkey, hgs⟩ := exists_literal_of_escaped k
    (':' :: (s.gap ++ (v.write s (depth + 1) ++ (nil.writeRest s depth ++ rest))))
  refine ⟨.last gs .none (gapSpace s) t (lineSpace hs depth), ?_,
    by rw [Entries.members?, hgs, ht]; rfl⟩
  simp only [writeFrom, Style.colon_eq, List.append_assoc, List.cons_append]
  rw [← hkey, ← htext, writeRest, List.append_assoc]
  rfl

theorem Members.writesEntries_cons (hs : s.IsSpaced) {l : String} {w : Value} {ms : Members}
    (hw : w.WritesTree s) (hms : ms.WritesEntries s) : (Members.cons l w ms).WritesEntries s := by
  intro k v hv depth rest
  obtain ⟨t, htext, ht⟩ := hv (depth + 1) _ ((cons l w ms).endsNumber_writeRest s depth rest)
  obtain ⟨es, hes, hmembers⟩ := hms l w hw depth rest
  obtain ⟨gs, hkey, hgs⟩ := exists_literal_of_escaped k
    (':' :: (s.gap ++ (v.write s (depth + 1) ++ ((cons l w ms).writeRest s depth ++ rest))))
  refine ⟨.cons gs .none (gapSpace s) t .none (lineSpace hs (depth + 1)) es, ?_,
    by rw [Entries.members?, hgs, ht, hmembers]; rfl⟩
  simp only [writeFrom, Style.colon_eq, List.append_assoc, List.cons_append]
  rw [← hkey, ← htext, Entries.chars, hes, writeRest_cons]
  simp [lineSpace, gapSpace, Space.none]

mutual

theorem Value.writesTree (hs : s.IsSpaced) : (v : Value) → v.isWhole → v.WritesTree s
  | .null, _ => fun _ _ _ => ⟨.null, rfl, rfl⟩
  | .bool true, _ => fun _ _ _ => ⟨.bool true, rfl, rfl⟩
  | .bool false, _ => fun _ _ _ => ⟨.bool false, rfl, rfl⟩
  | .int _, h => writesTree_int h
  | .real _, h => eq_of_beq h ▸ writesTree_minusZero
  | .text t, _ => writesTree_text t
  | .array .nil, _ => fun _ _ _ => ⟨.emptyArray .none, rfl, rfl⟩
  | .array (.cons v vs), h => by
    simp only [Value.isWhole, Values.isWhole, Bool.and_eq_true] at h
    intro depth rest _
    obtain ⟨es, hes, hvs⟩ := vs.writesElements hs h.2 v (v.writesTree hs h.1) depth rest
    refine ⟨.array (lineSpace hs (depth + 1)) es, ?_, by rw [Tree.value?, hvs]; rfl⟩
    simp [Tree.chars, hes, Value.write, lineSpace]
  | .object .nil, _ => fun _ _ _ => ⟨.emptyObject .none, rfl, rfl⟩
  | .object (.cons k v ms), h => by
    simp only [Value.isWhole, Members.isWhole, Bool.and_eq_true] at h
    intro depth rest _
    obtain ⟨es, hes, hms⟩ := ms.writesEntries hs h.2 k v (v.writesTree hs h.1) depth rest
    refine ⟨.object (lineSpace hs (depth + 1)) es, ?_, by rw [Tree.value?, hms]; rfl⟩
    simp [Tree.chars, hes, Value.write_object_cons, lineSpace]

theorem Values.writesElements (hs : s.IsSpaced) : (vs : Values) → vs.isWhole → vs.WritesElements s
  | .nil, _ => Values.writesElements_nil hs
  | .cons v vs, h => by
    simp only [Values.isWhole, Bool.and_eq_true] at h
    exact Values.writesElements_cons hs (v.writesTree hs h.1) (vs.writesElements hs h.2)

theorem Members.writesEntries (hs : s.IsSpaced) : (ms : Members) → ms.isWhole → ms.WritesEntries s
  | .nil, _ => Members.writesEntries_nil hs
  | .cons _ v ms, h => by
    simp only [Members.isWhole, Bool.and_eq_true] at h
    exact Members.writesEntries_cons hs (v.writesTree hs h.1) (ms.writesEntries hs h.2)

end

theorem denotes_write (hs : s.IsSpaced) {v : Value}
    (h : v.isWhole) : Denotes (String.ofList (v.write s 0)) v := by
  obtain ⟨t, htext, ht⟩ := v.writesTree hs h 0 [] (by intro c t hc; cases hc)
  refine ⟨⟨.none, t, .none⟩, ?_, ht⟩
  rw [List.append_nil] at htext
  rw [← htext]
  rfl

end HostReach.Json
