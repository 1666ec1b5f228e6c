import HostReach.Proofs.Json.RecordText
import HostReach.Response.Envelope

/-!
Which JSON objects are envelopes. The code, the success, the version, the error and the result may
stand in any order among other members, none of them twice.
-/
namespace HostReach.Response

open Json

namespace Draft

def version? (v : Value) : Option (Option Nat) :=
  (v.optional? (Value.intWithin? 0 (Nat.pow 2 32 - 1))).map (·.map Int.toNat)

def code? (v : Value) : Option Int32 :=
  (v.intWithin? (-Nat.pow 2 31) (Nat.pow 2 31 - 1)).map Int32.ofInt

def result? (v : Value) : Option (Option Value) := (v.optional? some).map (·.map Value.normal)

def versionSlot : Slot Draft :=
  .of "version" true (·.version) (fun v d => { d with version := some v })
    (fun v : Option Int => v.map Int.toNat)
    (reads_int "u32" 0 (Nat.pow 2 32 - 1)).optional fun _ _ => rfl

def codeSlot : Slot Draft :=
  .of "code" false (·.code) (fun c d => { d with code := some c }) Int32.ofInt
    (reads_int "i32" (-Nat.pow 2 31) (Nat.pow 2 31 - 1)) fun _ _ => rfl

def successSlot : Slot Draft :=
  .of "success" false (·.success) (fun b d => { d with success := some b }) id reads_bool
    fun _ _ => rfl

def errorSlot : Slot Draft :=
  .of "error" true (·.error) (fun e d => { d with error := some e }) id
    (reads_text "a string").optional
    fun _ _ => rfl

def resultSlot : Slot Draft :=
  .of "result" true (·.result) (fun v d => { d with result := some v })
    (fun v : Option Value => v.map Value.normal) reads_read.optional fun _ _ => rfl

def wireLayout : Layout wireShape where
  slots := [versionSlot, codeSlot, successSlot, errorSlot, resultSlot]
  fields_eq := rfl
  apart := by
    refine .cons ?_ (.cons ?_ (.cons ?_ (.cons ?_ (.cons ?_ .nil))))
    all_goals simp only [List.mem_cons, List.not_mem_nil, or_false, forall_eq_or_imp, forall_eq,
      false_imp_iff, implies_true]
    repeat' apply And.intro
    all_goals exact ⟨by decide, fun _ _ => rfl, fun _ _ => rfl⟩

variable {vs : List Value} {v : Value}

theorem code?_eq_some {c : Int32} : code? v = some c ↔ v = .int c.toInt := by
  unfold code?
  simp only [Option.map_eq_some_iff, Value.intWithin?_eq_some]
  constructor
  · rintro ⟨n, ⟨rfl, hlow, hhigh⟩, rfl⟩
    rw [Int32.toInt_ofInt_of_le hlow (Int.lt_of_le_sub_one hhigh)]
  · rintro rfl
    exact ⟨c.toInt, ⟨rfl, c.le_toInt, Int.le_sub_one_of_lt c.toInt_lt⟩, Int32.ofInt_toInt c⟩

theorem takes_code {c : Int32} : Takes code? none vs (some c) ↔ vs = [.int c.toInt] := by
  simp [takes_none, code?_eq_some]

theorem takes_success {b : Bool} : Takes Value.bool? none vs (some b) ↔ vs = [.bool b] := by
  simp [takes_none, Value.bool?_eq_some]

theorem version?_eq_some {o : Option Nat} :
    version? v = some o ↔
    (v = .null ∧ o = none) ∨ ∃ n : Nat, n < Nat.pow 2 32 ∧ v = .int n ∧ o = some n := by
  unfold version?
  simp only [Option.map_eq_some_iff, Value.optional?_eq_some, Value.intWithin?_eq_some]
  constructor
  · rintro ⟨_, ⟨rfl, rfl⟩ | ⟨-, n, ⟨rfl, hlow, hhigh⟩, rfl⟩, rfl⟩
    · exact .inl ⟨rfl, rfl⟩
    · exact .inr ⟨n.toNat, by omega, by rw [Int.toNat_of_nonneg hlow], rfl⟩
  · rintro (⟨rfl, rfl⟩ | ⟨n, hn, rfl, rfl⟩)
    · exact ⟨none, .inl ⟨rfl, rfl⟩, rfl⟩
    · exact ⟨some n, .inr ⟨by simp, n, ⟨rfl, by omega, by omega⟩, rfl⟩, rfl⟩

theorem takes_version :
    (∃ o, Takes version? none vs o ∧ (o.getD none).getD 0 ≤ wireVersion) ↔
      vs ∈ [[], [.null], [.int 0], [.int 1]] := by
  simp only [takes_none, version?_eq_some, List.mem_cons, List.not_mem_nil, or_false]
  constructor
  · rintro ⟨o, ⟨rfl, rfl⟩ | ⟨v, a, rfl, ⟨rfl, rfl⟩ | ⟨n, -, rfl, rfl⟩, rfl⟩, hversion⟩
    · exact .inl rfl
    · exact .inr (.inl rfl)
    · have hn : n = 0 ∨ n = 1 := by
        simp only [Option.getD_some, wireVersion] at hversion
        omega
      rcases hn with rfl | rfl
      · exact .inr (.inr (.inl rfl))
      · exact .inr (.inr (.inr rfl))
  · rintro (rfl | rfl | rfl | rfl)
    · exact ⟨none, .inl ⟨rfl, rfl⟩, by decide⟩
    · exact ⟨some none, .inr ⟨_, none, rfl, .inl ⟨rfl, rfl⟩, rfl⟩, by decide⟩
    · exact ⟨some (some 0), .inr ⟨_, some 0, rfl, .inr ⟨0, by decide, rfl, rfl⟩, rfl⟩, by decide⟩
    · exact ⟨some (some 1), .inr ⟨_, some 1, rfl, .inr ⟨1, by decide, rfl, rfl⟩, rfl⟩, by decide⟩

theorem takes_error {s : String} :
    (∃ o, Takes (Value.optional? Value.text?) none vs o ∧ (o.getD none).getD "" = s) ↔
      (vs ∈ [[], [.null]] ∧ s = "") ∨ vs = [.text s] := by
  simp only [takes_none, Value.optional?_eq_some, Value.text?_eq_some, List.mem_cons,
    List.not_mem_nil, or_false]
  constructor
  · rintro ⟨o, ⟨rfl, rfl⟩ | ⟨v, a, rfl, ⟨rfl, rfl⟩ | ⟨-, t, rfl, rfl⟩, rfl⟩, rfl⟩
    · exact .inl ⟨.inl rfl, rfl⟩
    · exact .inl ⟨.inr rfl, rfl⟩
    · exact .inr rfl
  · rintro (⟨rfl | rfl, rfl⟩ | rfl)
    · exact ⟨none, .inl ⟨rfl, rfl⟩, rfl⟩
    · exact ⟨some none, .inr ⟨_, none, rfl, .inl ⟨rfl, rfl⟩, rfl⟩, rfl⟩
    · exact ⟨some (some s), .inr ⟨_, some s, rfl, .inr ⟨by simp, s, rfl, rfl⟩, rfl⟩, rfl⟩

theorem takes_result {r : Option Value} :
    (∃ o, Takes result? none vs o ∧ o.getD none = r) ↔
      (vs ∈ [[], [.null]] ∧ r = none) ∨ ∃ v, v ≠ .null ∧ vs = [v] ∧ r = some v.normal := by
  simp only [takes_none, result?, Option.map_eq_some_iff, Value.optional?_eq_some,
    Option.some.injEq, List.mem_cons, List.not_mem_nil, or_false]
  constructor
  · rintro ⟨o, ⟨rfl, rfl⟩ | ⟨v, a, rfl, ⟨_, ⟨rfl, rfl⟩ | ⟨hnull, _, rfl, rfl⟩, rfl⟩, rfl⟩, rfl⟩
    · exact .inl ⟨.inl rfl, rfl⟩
    · exact .inl ⟨.inr rfl, rfl⟩
    · exact .inr ⟨v, hnull, rfl, rfl⟩
  · rintro (⟨rfl | rfl, rfl⟩ | ⟨v, hnull, rfl, rfl⟩)
    · exact ⟨none, .inl ⟨rfl, rfl⟩, rfl⟩
    · exact ⟨some none, .inr ⟨_, none, rfl, ⟨none, .inl ⟨rfl, rfl⟩, rfl⟩, rfl⟩, rfl⟩
    · exact ⟨some (some v.normal),
        .inr ⟨v, some v.normal, rfl, ⟨some v, .inr ⟨hnull, v, rfl, rfl⟩, rfl⟩, rfl⟩, rfl⟩

structure Holds (ms : Members) (d : Draft) : Prop where
  version : Takes version? none (ms.valuesOf "version") d.version
  code : Takes code? none (ms.valuesOf "code") d.code
  success : Takes Value.bool? none (ms.valuesOf "success") d.success
  error : Takes (Value.optional? Value.text?) none (ms.valuesOf "error") d.error
  result : Takes result? none (ms.valuesOf "result") d.result

theorem Holds.unique {ms : Members} {d e : Draft} (hd : Holds ms d) (he : Holds ms e) : d = e := by
  obtain ⟨version, code, success, error, result⟩ := d
  rw [Draft.mk.injEq]
  exact ⟨hd.version.unique he.version, hd.code.unique he.code, hd.success.unique he.success,
    hd.error.unique he.error, hd.result.unique he.result⟩

theorem accept_successSlot : successSlot.accept = Value.bool? :=
  funext fun v => congrFun Option.map_id_fun v.bool?

theorem accept_errorSlot : errorSlot.accept = Value.optional? Value.text? :=
  funext fun v => congrFun Option.map_id_fun (v.optional? Value.text?)

theorem holds_of_fill {ms : Members} {d : Draft} (h : wireLayout.fill ms {} = some d) :
    Holds ms d where
  version := wireLayout.takes_of_fill h (s := versionSlot) (by simp [wireLayout])
  code := wireLayout.takes_of_fill h (s := codeSlot) (by simp [wireLayout])
  success :=
    accept_successSlot ▸ wireLayout.takes_of_fill h (s := successSlot) (by simp [wireLayout])
  error := accept_errorSlot ▸ wireLayout.takes_of_fill h (s := errorSlot) (by simp [wireLayout])
  result := wireLayout.takes_of_fill h (s := resultSlot) (by simp [wireLayout])

theorem fill_eq_some {ms : Members} {d : Draft} : wireLayout.fill ms {} = some d ↔ Holds ms d := by
  constructor
  · exact holds_of_fill
  · intro h
    have hfill : ∃ e, wireLayout.fill ms {} = some e := by
      apply wireLayout.exists_fill
      simp only [wireLayout, List.mem_cons, List.not_mem_nil, or_false, forall_eq_or_imp, forall_eq]
      exact ⟨⟨_, h.version⟩, ⟨_, h.code⟩, ⟨_, accept_successSlot ▸ h.success⟩,
        ⟨_, accept_errorSlot ▸ h.error⟩, ⟨_, h.result⟩⟩
    obtain ⟨e, he⟩ := hfill
    rw [he, h.unique (holds_of_fill he)]

end Draft

def wireKeys : List String := ["version", "code", "success", "error", "result"]

/-- The members make up an envelope of the response. A key that is left out has no values, and
`null` says that there is no version, error or result. -/
structure Envelops (ms : Members) (r : Response) : Prop where
  code : ms.valuesOf "code" = [.int r.code.toInt]
  success : ms.valuesOf "success" = [.bool r.success]
  version : ms.valuesOf "version" ∈ [[], [.null], [.int 0], [.int 1]]
  error : (ms.valuesOf "error" ∈ [[], [.null]] ∧ r.error = "") ∨
    ms.valuesOf "error" = [.text r.error]
  result : (ms.valuesOf "result" ∈ [[], [.null]] ∧ r.result = none) ∨
    ∃ v, v ≠ .null ∧ ms.valuesOf "result" = [v] ∧ r.result = some v.normal

def Draft.IsCurrent (d : Draft) : Prop := (d.version.getD none).getD 0 ≤ wireVersion

theorem missing?_eq_none {d : Draft} : Draft.wireShape.missing? d = none ↔
    d.code.isSome ∧ d.success.isSome := by
  simp [Shape.missing?, Draft.wireShape, Draft.codeField, Draft.successField, Draft.wireErrorField,
    Draft.resultField, Draft.versionField, Field.of]

theorem envelops_iff {ms : Members} {r : Response} :
    Envelops ms r ↔
    ∃ d, Draft.Holds ms d ∧ d.code.isSome ∧ d.success.isSome ∧ d.IsCurrent ∧ d.response = r := by
  constructor
  · intro h
    obtain ⟨version, hversion, hcurrent⟩ := Draft.takes_version.mpr h.version
    obtain ⟨error, herror, heq⟩ := Draft.takes_error.mpr h.error
    obtain ⟨result, hresult, heq'⟩ := Draft.takes_result.mpr h.result
    refine ⟨⟨version, some r.code, some r.success, error, result⟩, ?_, rfl, rfl, hcurrent, ?_⟩
    · exact ⟨hversion, Draft.takes_code.mpr h.code, Draft.takes_success.mpr h.success,
        herror, hresult⟩
    · simp [Draft.response, heq, heq']
  · rintro ⟨d, hholds, hcode, hsuccess, hcurrent, rfl⟩
    obtain ⟨c, hc⟩ := Option.isSome_iff_exists.mp hcode
    obtain ⟨b, hb⟩ := Option.isSome_iff_exists.mp hsuccess
    have hcode := hholds.code
    have hsuccess := hholds.success
    rw [hc, Draft.takes_code] at hcode
    rw [hb, Draft.takes_success] at hsuccess
    constructor
    · simp [Draft.response, hc, hcode]
    · simp [Draft.response, hb, hsuccess]
    · exact Draft.takes_version.mp ⟨_, hholds.version, hcurrent⟩
    · exact Draft.takes_error.mp ⟨_, hholds.error, rfl⟩
    · exact Draft.takes_result.mp ⟨_, hholds.result, rfl⟩

theorem decode_of_ok {content : String} {d : Draft}
    (h : Draft.wireShape.ofText {} (Text.trim content) = .ok d) :
    (d.IsCurrent ∧ Envelope.decode content = .structured d.response) ∨
      (¬d.IsCurrent ∧ ∃ reason, Envelope.decode content = .raw (Text.trim content) reason) := by
  unfold Envelope.decode Draft.IsCurrent
  simp only [h]
  cases d.version.getD none with
  | none => exact .inl ⟨Nat.zero_le _, rfl⟩
  | some v =>
    simp only [Option.getD_some]
    by_cases hv : wireVersion < v
    · exact .inr ⟨Nat.not_le.mpr hv, _, if_pos hv⟩
    · exact .inl ⟨Nat.not_lt.mp hv, if_neg hv⟩

theorem decode_eq_structured {content : String} {r : Response} :
    Envelope.decode content = .structured r ↔
      ∃ d, Draft.wireShape.ofText {} (Text.trim content) = .ok d ∧ d.IsCurrent ∧
      d.response = r := by
  cases h : Draft.wireShape.ofText {} (Text.trim content) with
  | error f => simp [Envelope.decode, h]
  | ok d =>
    rcases decode_of_ok h with ⟨hcurrent, hdecode⟩ | ⟨hcurrent, reason, hdecode⟩
    · simp [hdecode, hcurrent]
    · simp [hdecode, hcurrent]

theorem exists_raw {content : String} (h : ∀ r, Envelope.decode content ≠ .structured r) :
    ∃ reason, Envelope.decode content = .raw (Text.trim content) reason := by
  cases hread : Draft.wireShape.ofText {} (Text.trim content) with
  | error f => exact ⟨.malformed f, by simp [Envelope.decode, hread]⟩
  | ok d =>
    rcases decode_of_ok hread with ⟨-, hdecode⟩ | ⟨-, hdecode⟩
    · exact absurd hdecode (h _)
    · exact hdecode

theorem eq_trim_of_raw {content text : String} {reason : Envelope.Refusal}
    (h : Envelope.decode content = .raw text reason) : text = Text.trim content := by
  obtain ⟨other, hother⟩ := @exists_raw content (by simp [h])
  rw [h] at hother
  cases hother
  rfl

theorem decode_of_structured {content : String} {r : Response}
    (h : Envelope.decode content = .structured r) (default : Option Response) :
    decode content default = r := by
  unfold decode
  rw [h]

theorem decode_of_denotes_object {content : String} {ms : Members}
    (h : Denotes (Text.trim content) (.object ms)) (hdepth : (Value.object ms).depth ≤ maxDepth)
    {r : Response} :
    Envelope.decode content = .structured r ↔ Envelops ms r := by
  rw [decode_eq_structured, envelops_iff]
  simp only [Draft.wireLayout.ofText_object h hdepth, Draft.fill_eq_some,
    missing?_eq_none, and_assoc]

theorem valuesOf_zip (vs : List Value) :
    (Members.ofList (wireKeys.zip vs)).valuesOf "code" = vs[1]?.toList ∧
      (Members.ofList (wireKeys.zip vs)).valuesOf "success" = vs[2]?.toList := by
  rcases vs with _ | ⟨a, _ | ⟨b, _ | ⟨c, _ | ⟨e, _ | ⟨f, vs⟩⟩⟩⟩⟩ <;>
    simp [wireKeys, Members.ofList, Members.valuesOf]

theorem isSome_of_takes {α : Type} {accept : Value → Option α} {v? : Option Value}
    {after : Option α} (h : Takes accept none v?.toList after) : after.isSome = v?.isSome := by
  cases v? with
  | none => rw [h, Option.isSome_none, Option.isSome_none]
  | some v =>
    obtain ⟨a, -, rfl⟩ := h
    rfl

theorem all_isOptional_drop (n : Nat) :
    (Draft.wireLayout.slots.drop n).all (·.field.isOptional) = true ↔ 3 ≤ n := by
  match n with
  | 0 | 1 | 2 => exact iff_of_false (by decide) (by decide)
  | 3 | 4 => exact iff_of_true (by decide) (by decide)
  | n + 5 => exact iff_of_true (by simp [Draft.wireLayout]) (by omega)

theorem decode_of_denotes_array {content : String} {vs : List Value}
    (h : Denotes (Text.trim content) (.array (.ofList vs)))
    (hdepth : (Value.array (.ofList vs)).depth ≤ maxDepth) {r : Response} :
    Envelope.decode content = .structured r ↔
    vs.length ≤ 5 ∧ Envelops (.ofList (wireKeys.zip vs)) r := by
  have hempty : ∀ s ∈ Draft.wireLayout.slots, s.get {} = none := by
    simp only [Draft.wireLayout, List.mem_cons, List.not_mem_nil, or_false,
      forall_eq_or_imp, forall_eq]
    exact ⟨rfl, rfl, rfl, rfl, rfl⟩
  have hfill (d : Draft) :
      Layout.fillElements Draft.wireLayout.slots (.ofList vs) {} = some d ↔
        vs.length ≤ 5 ∧ 3 ≤ vs.length ∧ Draft.Holds (.ofList (wireKeys.zip vs)) d := by
    rw [Draft.wireLayout.fillElements_iff (fun _ hs => hs) Draft.wireLayout.apart hempty,
      all_isOptional_drop, ← Draft.fill_eq_some]
    rfl
  have hrequired {d : Draft} (hholds : Draft.Holds (.ofList (wireKeys.zip vs)) d) :
      (d.code.isSome ∧ d.success.isSome) ↔ 3 ≤ vs.length := by
    obtain ⟨hcode, hsuccess⟩ := valuesOf_zip vs
    have hc : d.code.isSome = vs[1]?.isSome := isSome_of_takes (hcode ▸ hholds.code)
    have hs : d.success.isSome = vs[2]?.isSome := isSome_of_takes (hsuccess ▸ hholds.success)
    simp only [hc, hs, isSome_getElem?]
    omega
  rw [decode_eq_structured, envelops_iff]
  simp only [Draft.wireLayout.ofText_array h hdepth, hfill]
  constructor
  · rintro ⟨d, ⟨hlength, hthree, hholds⟩, hcurrent, hr⟩
    obtain ⟨hcode, hsuccess⟩ := (hrequired hholds).mpr hthree
    exact ⟨hlength, d, hholds, hcode, hsuccess, hcurrent, hr⟩
  · rintro ⟨hlength, d, hholds, hcode, hsuccess, hcurrent, hr⟩
    exact ⟨d, ⟨hlength, (hrequired hholds).mp ⟨hcode, hsuccess⟩, hholds⟩, hcurrent, hr⟩

theorem isJson_of_decode {content : String} {r : Response}
    (h : Envelope.decode content = .structured r) :
    IsJson (Text.trim content) := by
  obtain ⟨d, hread, -⟩ := decode_eq_structured.mp h
  obtain ⟨document, hdocument, -⟩ := Draft.wireLayout.exists_document_of_ofText hread
  exact ⟨document, hdocument⟩

theorem perm_eq_of_length_le_one {vs ws : List Value} (hperm : vs.Perm ws)
    (hlength : vs.length ≤ 1) : ws = vs := by
  match vs with
  | [] => exact hperm.nil_eq.symm
  | [v] => exact (List.singleton_perm.mp hperm).symm
  | v :: w :: vs => simp at hlength

/-- The order of the members, and members with other keys, do not matter. -/
theorem Envelops.of_perm {ms ns : Members} {r : Response} (h : Envelops ms r)
    (hperm : ∀ key ∈ wireKeys, (ms.valuesOf key).Perm (ns.valuesOf key)) :
    Envelops ns r := by
  have hversion : (ms.valuesOf "version").length ≤ 1 := by
    have hmem := h.version
    simp only [List.mem_cons, List.not_mem_nil, or_false] at hmem
    rcases hmem with hvs | hvs | hvs | hvs <;> simp [hvs]
  have herror : (ms.valuesOf "error").length ≤ 1 := by
    have hmem := h.error
    simp only [List.mem_cons, List.not_mem_nil, or_false] at hmem
    rcases hmem with ⟨hvs | hvs, -⟩ | hvs <;> simp [hvs]
  have hresult : (ms.valuesOf "result").length ≤ 1 := by
    have hmem := h.result
    simp only [List.mem_cons, List.not_mem_nil, or_false] at hmem
    rcases hmem with ⟨hvs | hvs, -⟩ | ⟨v, -, hvs, -⟩ <;> simp [hvs]
  have hcode : (ms.valuesOf "code").length ≤ 1 := by simp [h.code]
  have hsuccess : (ms.valuesOf "success").length ≤ 1 := by simp [h.success]
  constructor
  · rw [perm_eq_of_length_le_one (hperm "code" (by simp [wireKeys])) hcode]
    exact h.code
  · rw [perm_eq_of_length_le_one (hperm "success" (by simp [wireKeys])) hsuccess]
    exact h.success
  · rw [perm_eq_of_length_le_one (hperm "version" (by simp [wireKeys])) hversion]
    exact h.version
  · rw [perm_eq_of_length_le_one (hperm "error" (by simp [wireKeys])) herror]
    exact h.error
  · rw [perm_eq_of_length_le_one (hperm "result" (by simp [wireKeys])) hresult]
    exact h.result

/-- Which objects are envelopes, and of what: an object that the reader can take is structured
output exactly if its members make up an envelope, in whatever order and among whatever other
members. What is no JSON is never structured output. -/
theorem decode_wire_object (content : String) :
    (∀ ms, Denotes (Text.trim content) (.object ms) → (Value.object ms).depth ≤ 127 →
      (∀ r, Envelope.decode content = .structured r ↔ Envelops ms r) ∧
      ((¬∃ r, Envelops ms r) → ∃ reason, Envelope.decode content =
        .raw (Text.trim content) reason) ∧
      (∀ content' ns, Denotes (Text.trim content') (.object ns) → (Value.object ns).depth ≤ 127 →
        (∀ key ∈ wireKeys, (ms.valuesOf key).Perm (ns.valuesOf key)) →
        ∀ r, Envelope.decode content' = .structured r ↔ Envelope.decode content = .structured r)) ∧
    (¬IsJson (Text.trim content) → ∃ reason, Envelope.decode content =
      .raw (Text.trim content) reason) := by
  refine ⟨fun ms h hdepth => ⟨fun r => decode_of_denotes_object h hdepth, fun hnone => ?_, ?_⟩,
    fun hjson => ?_⟩
  · apply exists_raw
    intro r hdecode
    exact hnone ⟨r, (decode_of_denotes_object h hdepth).mp hdecode⟩
  · intro content' ns h' hdepth' hperm r
    rw [decode_of_denotes_object h hdepth, decode_of_denotes_object h' hdepth']
    exact ⟨fun henv => henv.of_perm fun key hkey => (hperm key hkey).symm,
      fun henv => henv.of_perm hperm⟩
  · exact exists_raw fun r hdecode => hjson (isJson_of_decode hdecode)

/-- An escaped key, an unknown key twice, and keys in another order than they are written in; a word
that breaks off. -/
theorem decode_wire_object_escaped_key :
    let mixed :=
      "\t\x7b\"x\": 1, \"success\": false, \"x\": [], \"\\u0063ode\": -7, \"error\": \"no\"\x7d\n"
    let broken := "\x7b\"code\": 200, \"success\": tru\x7d"
    Envelope.decode mixed = .structured ⟨-7, false, "no", none⟩ ∧
      ∃ reason, Envelope.decode broken = .raw broken reason := by
  intro mixed broken
  constructor
  · have hread : (Json.ofText (Text.trim mixed)).toOption = some (.object (.ofList
        [("x", .int 1), ("success", .bool false), ("x", .array .nil), ("code", .int (-7)),
        ("error", .text "no")])) := by
      decide +kernel
    obtain ⟨hdenotes, hdepth⟩ := ofText_eq_ok.mp (toOption_eq_some.mp hread)
    refine (((decode_wire_object mixed).1 _ hdenotes hdepth).1 _).mpr
      ⟨?_, ?_, ?_, .inr ?_, .inl ⟨?_, rfl⟩⟩
    all_goals simp [Members.ofList, Members.valuesOf]
  · have htrim : Text.trim broken = broken := by decide +kernel
    have hjson : ¬IsJson (Text.trim broken) := by
      rw [htrim]
      exact not_isJson_of_skip (by decide +kernel)
    obtain ⟨reason, hdecode⟩ := (decode_wire_object broken).2 hjson
    rw [htrim] at hdecode
    exact ⟨reason, hdecode⟩

end HostReach.Response
