import HostReach.Proofs.Response.RoundTrip
import HostReach.Proofs.Response.Wire

/-!
The two readers of responses side by side. A response is read from its own text, and from captured
text as an envelope: the field lists are declared apart, but on objects they differ only in what
they make of a version and of an error that is `null`.
-/
namespace HostReach.Json

theorem fractionText_append (t u : List Char) (fs : Option Digits) :
    fractionText (t ++ u) fs = fractionText t fs ++ u := by
  cases fs with
  | none => rfl
  | some fs => simp [fractionText]

theorem exponentText_append (t u : List Char) (e : Option Exponent) :
    exponentText (t ++ u) e = exponentText t e ++ u := by
  cases e with
  | none => rfl
  | some e => simp [exponentText]

theorem Numeral.text_append (n : Numeral) (t u : List Char) : n.text (t ++ u) = n.text t ++ u := by
  unfold text unsigned
  rw [exponentText_append, fractionText_append]
  split <;> simp

theorem Literal.text_append (gs : Literal) (t u : List Char) :
    text gs (t ++ u) = text gs t ++ u := by
  simp [text]

mutual

theorem Tree.chars_append (t u : List Char) : (v : Tree) → v.chars (t ++ u) = v.chars t ++ u
  | .null | .bool true | .bool false => rfl
  | .number n => n.text_append t u
  | .text gs => by rw [Tree.chars, Tree.chars, Literal.text_append, List.cons_append]
  | .emptyArray w => by simp [Tree.chars]
  | .array w es => by simp [Tree.chars, es.chars_append t u]
  | .emptyObject w => by simp [Tree.chars]
  | .object w es => by simp [Tree.chars, es.chars_append t u]

theorem Elements.chars_append (t u : List Char) : (es : Elements) →
    es.chars (t ++ u) = es.chars t ++ u
  | .last v after => by
    rw [Elements.chars, Elements.chars, ← v.chars_append, List.append_assoc, List.cons_append]
  | .cons v after before es => by
    rw [Elements.chars, Elements.chars, ← v.chars_append, es.chars_append t u]
    simp

theorem Entries.chars_append (t u : List Char) : (es : Entries) →
    es.chars (t ++ u) = es.chars t ++ u
  | .last k beforeColon afterColon v after => by
    rw [Entries.chars, Entries.chars, ← Literal.text_append, List.append_assoc, List.cons_append,
      List.append_assoc, ← v.chars_append, List.append_assoc, List.cons_append]
  | .cons k beforeColon afterColon v after before es => by
    rw [Entries.chars, Entries.chars, ← Literal.text_append, List.append_assoc, List.cons_append,
      List.append_assoc, ← v.chars_append, es.chars_append t u]
    simp

end

theorem Entries.exists_chars_eq : (es : Entries) → ∃ body, es.chars [] = body ++ ['\x7d']
  | .last k beforeColon afterColon v after => by
    refine ⟨Literal.text k (beforeColon ++ ':' :: (afterColon ++ v.chars after)), ?_⟩
    rw [chars, v.chars_append, ← Literal.text_append]
    simp
  | .cons k beforeColon afterColon v after before es => by
    obtain ⟨body, hbody⟩ := es.exists_chars_eq
    refine ⟨Literal.text k (beforeColon ++ ':' ::
      (afterColon ++ v.chars (after ++ ',' :: (before ++ '\x22' :: body)))), ?_⟩
    rw [chars, hbody, ← Literal.text_append, List.append_assoc, List.cons_append, List.append_assoc,
      ← v.chars_append]
    simp

theorem Tree.exists_chars_eq {v : Tree} (h : v.isObject = true) :
    ∃ body, v.chars [] = '\x7b' :: (body ++ ['\x7d']) := by
  cases v with
  | emptyObject w => exact ⟨w, rfl⟩
  | object w es =>
    obtain ⟨body, hbody⟩ := es.exists_chars_eq
    exact ⟨w ++ '\x22' :: body, by simp [chars, hbody]⟩
  | _ => cases h

def Document.bare (d : Document) : Document := ⟨.none, d.tree, .none⟩

theorem Document.trim_text (d : Document) (h : d.tree.isObject = true) :
    Text.trim d.text = d.bare.text := by
  obtain ⟨body, hbody⟩ := Tree.exists_chars_eq h
  have htree : d.tree.chars d.after = '\x7b' :: (body ++ ['\x7d']) ++ d.after := by
    rw [← hbody, ← d.tree.chars_append, List.nil_append]
  have hbare : d.bare.text = String.ofList ('\x7b' :: (body ++ ['\x7d'])) := by
    rw [← hbody]
    rfl
  unfold Text.trim Document.text
  rw [String.toList_ofList, htree, ← List.append_assoc,
    Chars.trim_padded (fun c hc => Response.isBlank_of_isSpace (d.before.isSpace c hc))
      (fun c hc => Response.isBlank_of_isSpace (d.after.isSpace c hc)) (by decide) (by decide),
      ← hbare]
  rfl

end HostReach.Json

namespace HostReach.Response

open Json

namespace Draft

variable {levels : Nat} {key : String} {v : Tree} {d e : Draft}

def ownErrorSlot : Slot Draft :=
  .of "error" true errorSlot.get errorSlot.set some (reads_text "a string") errorSlot.get_set

def ownLayout : Layout shape where
  slots := [codeSlot, successSlot, ownErrorSlot, resultSlot]
  fields_eq := rfl
  apart := by
    refine .cons ?_ (.cons ?_ (.cons ?_ (.cons ?_ .nil)))
    all_goals simp only [List.mem_cons, List.not_mem_nil, or_false, forall_eq_or_imp, forall_eq,
      false_imp_iff, implies_true]
    repeat' apply And.intro
    all_goals exact ⟨by decide, fun _ _ => rfl, fun _ _ => rfl⟩

theorem slot?_eq (hversion : key ≠ "version") (herror : key ≠ "error") :
    ownLayout.slot? key = wireLayout.slot? key := by
  have hv : (versionSlot.key == key) = false := beq_eq_false_iff_ne.mpr (Ne.symm hversion)
  have he : (errorSlot.key == key) = false := beq_eq_false_iff_ne.mpr (Ne.symm herror)
  have ho : (ownErrorSlot.key == key) = false := he
  simp only [Layout.slot?, ownLayout, wireLayout, List.find?_cons, hv, he, ho]

theorem missing?_own_eq_none {d : Draft} : shape.missing? d = none ↔
    d.code.isSome ∧ d.success.isSome := by
  simp [Shape.missing?, shape, codeField, successField, errorField, resultField, Field.of]

/-- Of anything but `null`, both make the same error. -/
theorem take_error (hnull : v ≠ .null) : errorSlot.take levels v = ownErrorSlot.take levels v := by
  unfold Slot.take
  cases hvalue : v.valueWithin? levels with
  | none => rfl
  | some x =>
    obtain ⟨hx, -⟩ := Tree.valueWithin?_eq_some.mp hvalue
    have hne : x ≠ .null := fun h => hnull (Tree.eq_null (h ▸ hx))
    have haccept : errorSlot.accept x = (x.text?).map some := by
      rw [accept_errorSlot, x.optional?_of_ne_null hne]
    exact haccept

theorem putTree_error_null : ownLayout.putTree levels "error" .null d = none := by
  rw [Option.eq_none_iff_forall_ne_some]
  intro e h
  rcases Layout.putTree_eq_some.mp h with ⟨hslot, -⟩ | ⟨s, a, hslot, -, htake, -⟩
  · cases hslot
  · cases hslot
    obtain ⟨x, hx, -, ha⟩ := Slot.take_eq_some.mp htake
    cases hx
    cases ha

theorem putTree_eq (hversion : key ≠ "version") (hnull : key = "error" → v ≠ .null) :
    ownLayout.putTree levels key v d = wireLayout.putTree levels key v d := by
  by_cases herror : key = "error"
  · subst herror
    let put (a : Option (Option String)) : Option Draft :=
      if d.error.isSome then none else a.map fun e => { d with error := some e }
    exact congrArg put (take_error (hnull rfl)).symm
  · rw [Layout.putTree, Layout.putTree, slot?_eq hversion herror]

def unversioned (d : Draft) : Draft := { d with version := none }

theorem putTree_unversioned (levels : Nat) (key : String) (v : Tree) (d : Draft) :
    ownLayout.putTree levels key v d.unversioned =
      (ownLayout.putTree levels key v d).map unversioned := by
  unfold Layout.putTree
  cases hslot : ownLayout.slot? key with
  | none => rfl
  | some s =>
    obtain ⟨hs, -⟩ := Layout.slot?_eq_some hslot
    have hget : s.get d.unversioned = s.get d ∧
        ∀ a, s.set a d.unversioned = (s.set a d).unversioned := by
      simp only [ownLayout, List.mem_cons, List.not_mem_nil, or_false] at hs
      rcases hs with rfl | rfl | rfl | rfl <;> exact ⟨rfl, fun _ => rfl⟩
    simp only [hget.1, hget.2]
    split
    · rfl
    · rw [Option.map_map]
      rfl

theorem putTree_wire (hversion : key ≠ "version") (h : ownLayout.putTree levels key v d = some e) :
    wireLayout.putTree levels key v d = some e := by
  rw [← h]
  refine (putTree_eq hversion ?_).symm
  rintro rfl rfl
  rw [putTree_error_null] at h
  cases h

theorem putTree_own (hnull : key = "error" → v ≠ .null)
    (h : wireLayout.putTree levels key v d = some e) :
    ownLayout.putTree levels key v d.unversioned = some e.unversioned := by
  by_cases hversion : key = "version"
  · subst hversion
    rcases Layout.putTree_eq_some.mp h with ⟨hslot, -⟩ | ⟨s, a, hslot, -, -, rfl⟩
    · cases hslot
    · cases hslot
      rfl
  · rw [putTree_unversioned, putTree_eq hversion hnull, h]
    rfl

theorem fillEntries_unversioned : (es : Entries) → (d : Draft) →
    ownLayout.fillEntries levels es d.unversioned =
      (ownLayout.fillEntries levels es d).map unversioned
  | .last k _ _ v _, d => by
    simp only [Layout.fillEntries, putTree_unversioned]
    cases Literal.value? k <;> rfl
  | .cons k _ _ v _ _ es, d => by
    simp only [Layout.fillEntries, putTree_unversioned]
    cases Literal.value? k with
    | none => rfl
    | some key =>
      cases hput : ownLayout.putTree levels key v d with
      | none => simp [hput]
      | some d' => simp [hput, fillEntries_unversioned es d']

theorem fillEntries_wire : (es : Entries) → {d : Draft} → (∀ m ∈ es.named, m.1 ≠ some "version") →
    ownLayout.fillEntries levels es d = some e → wireLayout.fillEntries levels es d = some e
  | .last k _ _ v _, d, hversion, h => by
    obtain ⟨key, hkey, hput⟩ := Option.bind_eq_some_iff.mp h
    have hne : key ≠ "version" :=
      fun heq => hversion (Literal.value? k, v) (by simp [Entries.named]) (heq ▸ hkey)
    exact Option.bind_eq_some_iff.mpr ⟨key, hkey, putTree_wire hne hput⟩
  | .cons k _ _ v _ _ es, d, hversion, h => by
    obtain ⟨key, hkey, h⟩ := Option.bind_eq_some_iff.mp h
    obtain ⟨d', hput, hrest⟩ := Option.bind_eq_some_iff.mp h
    have hne : key ≠ "version" :=
      fun heq => hversion (Literal.value? k, v) (by simp [Entries.named]) (heq ▸ hkey)
    have hothers : ∀ m ∈ es.named, m.1 ≠ some "version" := fun m hm =>
      hversion m (by simp [Entries.named, hm])
    exact Option.bind_eq_some_iff.mpr ⟨key, hkey, Option.bind_eq_some_iff.mpr
      ⟨d', putTree_wire hne hput, fillEntries_wire es hothers hrest⟩⟩

theorem fillEntries_own : (es : Entries) → {d : Draft} → (some "error", .null) ∉ es.named →
    wireLayout.fillEntries levels es d = some e →
    ownLayout.fillEntries levels es d.unversioned = some e.unversioned
  | .last k _ _ v _, d, hnull, h => by
    obtain ⟨key, hkey, hput⟩ := Option.bind_eq_some_iff.mp h
    have hne : key = "error" → v ≠ .null := by
      rintro rfl rfl
      simp [Entries.named, hkey] at hnull
    exact Option.bind_eq_some_iff.mpr ⟨key, hkey, putTree_own hne hput⟩
  | .cons k _ _ v _ _ es, d, hnull, h => by
    obtain ⟨key, hkey, h⟩ := Option.bind_eq_some_iff.mp h
    obtain ⟨d', hput, hrest⟩ := Option.bind_eq_some_iff.mp h
    simp only [Entries.named, List.mem_cons, not_or] at hnull
    have hne : key = "error" → v ≠ .null := by
      rintro rfl rfl
      exact hnull.1 (by rw [hkey])
    exact Option.bind_eq_some_iff.mpr ⟨key, hkey, Option.bind_eq_some_iff.mpr
      ⟨d'.unversioned, putTree_own hne hput, fillEntries_own es hnull.2 hrest⟩⟩

theorem fillTree_unversioned (v : Tree) (d : Draft) :
    ownLayout.fillTree levels v d.unversioned =
      (ownLayout.fillTree levels v d).map unversioned := by
  cases v with
  | object w es => exact fillEntries_unversioned es d
  | _ => rfl

theorem fillTree_wire (hversion : ∀ m ∈ v.named, m.1 ≠ some "version")
    (h : ownLayout.fillTree levels v d = some e) :
    wireLayout.fillTree levels v d = some e := by
  cases v with
  | object w es => exact fillEntries_wire es hversion h
  | emptyObject w => exact h
  | _ => cases h

theorem fillTree_own (hnull : (some "error", .null) ∉ v.named)
    (h : wireLayout.fillTree levels v d = some e) :
    ownLayout.fillTree levels v d.unversioned = some e.unversioned := by
  cases v with
  | object w es => exact fillEntries_own es hnull h
  | emptyObject w =>
    cases h
    rfl
  | _ => cases h

end Draft

theorem ofText_document {d : Document} (hobject : d.tree.isObject = true) {r : Response} :
    ofText d.text = .ok r ↔ ∃ e, Draft.ownLayout.fillTree (maxDepth - 1) d.tree {} = some e ∧
      (e.code.isSome ∧ e.success.isSome) ∧ e.response = r := by
  have hread (e : Draft) : Draft.shape.ofText {} d.text = .ok e ↔
      _ := Draft.ownLayout.ofText_tree d hobject
  unfold ofText
  simp only [map_eq_ok, hread, Draft.missing?_own_eq_none, and_assoc]

theorem decode_document {d : Document} (hobject : d.tree.isObject = true) {r : Response} :
    Envelope.decode d.text = .structured r ↔
    ∃ e, Draft.wireLayout.fillTree (maxDepth - 1) d.tree {} = some e ∧
      (e.code.isSome ∧ e.success.isSome) ∧ e.IsCurrent ∧ e.response = r := by
  have hread (e : Draft) : Draft.wireShape.ofText {} d.bare.text = .ok e ↔ _ :=
    Draft.wireLayout.ofText_tree d.bare hobject
  rw [decode_eq_structured, d.trim_text hobject]
  simp only [hread, missing?_eq_none, and_assoc]
  rfl

theorem decode_of_ofText {d : Document} (hobject : d.tree.isObject = true)
    (hversion : ∀ m ∈ d.tree.named, m.1 ≠ some "version") {r : Response}
    (h : ofText d.text = .ok r) :
    Envelope.decode d.text = .structured r := by
  obtain ⟨e, hfill, hcomplete, rfl⟩ := (ofText_document hobject).mp h
  -- Nothing but a version fills its slot, so the draft has none.
  have hnone : e.unversioned = e := by
    have hboth : Draft.ownLayout.fillTree (maxDepth - 1) d.tree {} =
        (Draft.ownLayout.fillTree (maxDepth - 1) d.tree {}).map Draft.unversioned :=
      Draft.fillTree_unversioned d.tree {}
    rw [hfill, Option.map_some] at hboth
    exact (Option.some.inj hboth).symm
  have hcurrent : e.IsCurrent := by
    rw [← hnone]
    exact Nat.zero_le _
  exact (decode_document hobject).mpr
    ⟨e, Draft.fillTree_wire hversion hfill, hcomplete, hcurrent, rfl⟩

theorem ofText_of_decode {d : Document} (hobject : d.tree.isObject = true)
    (hnull : (some "error", .null) ∉ d.tree.named) {r : Response}
    (h : Envelope.decode d.text = .structured r) :
    ofText d.text = .ok r := by
  obtain ⟨e, hfill, hcomplete, -, rfl⟩ := (decode_document hobject).mp h
  exact (ofText_document hobject).mpr
    ⟨e.unversioned, Draft.fillTree_own hnull hfill, hcomplete, rfl⟩

/-- A response that is read from an object, without a version, is decoded from it, and what is
decoded from an object, without an error that is `null`, is read from it: the two readers differ on
no other objects. White space around the object, the order and the repetition of members, members
with other keys and the way that keys are written make no difference. -/
theorem readers_agree (d : Document) (hobject : d.tree.isObject = true) (r : Response) :
    ((∀ m ∈ d.tree.named, m.1 ≠ some "version") →
      ofText d.text = .ok r → Envelope.decode d.text = .structured r) ∧
    ((some "error", .null) ∉ d.tree.named →
      Envelope.decode d.text = .structured r → ofText d.text = .ok r) ∧
    (¬(ofText d.text = .ok r ↔ Envelope.decode d.text = .structured r) →
      (∃ m ∈ d.tree.named, m.1 = some "version") ∨ (some "error", .null) ∈ d.tree.named) := by
  refine ⟨fun hversion => decode_of_ofText hobject hversion,
    fun hnull => ofText_of_decode hobject hnull, ?_⟩
  intro hdiffer
  by_cases hversion : ∃ m ∈ d.tree.named, m.1 = some "version"
  · exact .inl hversion
  · by_cases hnull : (some "error", .null) ∈ d.tree.named
    · exact .inr hnull
    · have hnone : ∀ m ∈ d.tree.named, m.1 ≠ some "version" := fun m hm heq => hversion ⟨m, hm, heq⟩
      exact absurd ⟨decode_of_ofText hobject hnone, ofText_of_decode hobject hnull⟩ hdiffer

/-- Half a surrogate pair under an unknown key and an escaped key; a version; an error that is
`null`. -/
theorem readers_agree_small_objects :
    let one : Tree := .number ⟨false, ⟨'1', [], List.all_eq_true.mp rfl⟩, none, none, fun _ => rfl⟩
    let half : Glyph := .unit ⟨⟨'d', 13, rfl⟩, ⟨'8', 8, rfl⟩, ⟨'0', 0, rfl⟩, ⟨'0', 0, rfl⟩⟩
    let c : Glyph := .unit ⟨⟨'0', 0, rfl⟩, ⟨'0', 0, rfl⟩, ⟨'6', 6, rfl⟩, ⟨'3', 3, rfl⟩⟩
    let document (key : String) (v : Tree) : Document :=
      ⟨⟨['\t'], List.all_eq_true.mp rfl⟩,
        .object .none (.cons (Literal.verbatim key) .none .none v .none .none
        (.cons (c :: Literal.verbatim "ode") .none .none one .none .none
          (.last (Literal.verbatim "success") .none .none (.bool false) .none))), .none⟩
    Envelope.decode (document "x" (.text [half])).text = .structured ⟨1, false, "", none⟩ ∧
      ofText (document "version" one).text = .ok ⟨1, false, "", none⟩ ∧
      (some "error", .null) ∈ (document "error" .null).tree.named := by
  intro one half c document
  have hnamed (key : String) (hkey : Literal.value? (Literal.verbatim key) = some key) (v : Tree) :
      (document key v).tree.named =
        [(some key, v), (some "code", one), (some "success", .bool false)] := by
    have hcode : Literal.value? (c :: Literal.verbatim "ode") = some "code" := by decide +kernel
    have hsuccess : Literal.value? (Literal.verbatim "success") = some "success" := by
      decide +kernel
    rw [← hkey, ← hcode, ← hsuccess]
    rfl
  have hx := hnamed "x" (by decide +kernel) (.text [half])
  have hversion := hnamed "version" (by decide +kernel) one
  have herror := hnamed "error" (by decide +kernel) .null
  refine ⟨(readers_agree (document "x" (.text [half])) rfl _).1 ?_ ?_,
    (readers_agree (document "version" one) rfl _).2.1 ?_ ?_, ?_⟩
  · simp [hx]
  · exact toOption_eq_some.mp (by decide +kernel)
  · simp [hversion]
  · decide +kernel
  · have hown : (ofText (document "error" .null).text).toOption = none := by decide +kernel
    have hdecode : Envelope.decode (document "error" .null).text =
        .structured ⟨1, false, "", none⟩ := by
      decide +kernel
    have hdiffer :=
      (readers_agree (document "error" .null) rfl ⟨1, false, "", none⟩).2.2 fun hagree => by
      rw [hagree.mpr hdecode] at hown
      cases hown
    rcases hdiffer with ⟨m, hm, heq⟩ | hnull
    · simp only [herror, List.mem_cons, List.not_mem_nil, or_false] at hm
      rcases hm with rfl | rfl | rfl <;> simp at heq
    · exact hnull

end HostReach.Response
