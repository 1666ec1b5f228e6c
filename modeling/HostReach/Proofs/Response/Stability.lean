import HostReach.Proofs.Json.Printed
import HostReach.Proofs.Json.Whole
import HostReach.Proofs.Response.RoundTrip
import HostReach.Proofs.Response.Template
import HostReach.Proofs.Response.Wire

/-!
What is decoded from a text is decoded again, unchanged, from the text that it is printed to.
-/
namespace HostReach.Response

open Json

/-- A result is sorted and not `null`, its numbers are whole, and an envelope has room for it. -/
def IsTidy (r : Response) : Prop := ∀ v ∈ r.result, v ≠ .null ∧ v.IsTidy 126

variable {r : Response} {content : String}

theorem isTidy_code (c : Int32) (n : Nat) : (Value.int c.toInt).IsTidy n where
  isSorted := rfl
  isWhole := by
    have hlow := c.le_toInt
    have hhigh := c.toInt_lt
    simp only [Value.isWhole, Bool.and_eq_true, decide_eq_true_eq, Nat.pow_eq]
    omega
  depth_le := Nat.zero_le n

theorem IsTidy.members (h : r.IsTidy) : ∀ p ∈ r.members.toList, p.2.IsTidy 126 := by
  unfold Response.members
  rw [Members.toList_ofList]
  simp only [List.mem_append, List.mem_cons, List.not_mem_nil, or_false]
  rintro p (((rfl | rfl) | hp) | hp)
  · exact isTidy_code r.code _
  · exact ⟨rfl, rfl, Nat.zero_le _⟩
  · split at hp
    · cases hp
    · rw [List.mem_singleton.mp hp]
      exact ⟨rfl, rfl, Nat.zero_le _⟩
  · split at hp
    · cases hp
    · rename_i v hv
      rw [List.mem_singleton.mp hp]
      exact (h v hv).2

theorem envelops_members (h : r.IsTidy) : Envelops r.members r := by
  have hresult (v : Value) (hv : r.result = some v) : ∃ w, w ≠ .null ∧ v = w ∧ v = w.normal :=
    ⟨v, (h v hv).1, rfl, (v.normal_of_isSorted (h v hv).2.isSorted).symm⟩
  cases hr : r.result with
  | none =>
    by_cases herror : r.error = "" <;> constructor <;>
      simp [Response.members, Members.ofList, Members.valuesOf, herror, hr]
  | some v =>
    by_cases herror : r.error = "" <;> constructor <;>
      simp [Response.members, Members.ofList, Members.valuesOf, herror, hr, hresult v hr]

theorem IsTidy.toJson (h : r.IsTidy) : r.toJson.isWhole = true ∧ r.toJson.depth ≤ maxDepth := by
  obtain ⟨-, hwhole, hdepth⟩ := Members.tidy_of_forall h.members
  exact ⟨hwhole, Nat.succ_le_succ hdepth⟩

/-- A tidy response is read back as it was, whatever white space stands around its text. -/
theorem decode_padded_print (h : r.IsTidy) {before after : String} (hbefore : Text.isBlank before)
    (hafter : Text.isBlank after) :
    Envelope.decode (before ++ r.print ++ after) = .structured r := by
  obtain ⟨hwhole, hdepth⟩ := h.toJson
  have htext : r.print.toList = r.toJson.write .compact 0 ++ [] := by simp [print, Value.compact]
  have hdenotes : Denotes (Text.trim (before ++ r.print ++ after)) (.object r.members) := by
    rw [trim_printed (by simp) htext hbefore hafter]
    exact denotes_write (s := .compact) trivial hwhole
  exact (decode_of_denotes_object hdenotes hdepth).mpr (envelops_members h)

theorem decode_print (h : r.IsTidy) : Envelope.decode r.print = .structured r := by
  have h := decode_padded_print h (show Text.isBlank "" from rfl) (show Text.isBlank "" from rfl)
  rwa [String.empty_append, String.append_empty] at h

theorem normal_ne_null {v : Value} (h : v ≠ .null) : v.normal ≠ .null := by
  cases v with
  | null => exact absurd rfl h
  | _ => simp [Value.normal]

theorem isTidy_of_decode (hwhole : IsWhole (Text.trim content))
    (h : Envelope.decode content = .structured r) :
    r.IsTidy := by
  obtain ⟨d, hread, -, rfl⟩ := decode_eq_structured.mp h
  obtain ⟨document, htext, hdrawn, -⟩ := Draft.wireLayout.exists_document_of_ofText hread
  intro v hv
  have hresult : d.result = some (some v) := by
    unfold Draft.response at hv
    cases hd : d.result with
    | none => simp [hd] at hv
    | some o => simpa [hd] using hv
  rcases hdrawn Draft.resultSlot (by simp [Draft.wireLayout]) with
    hempty | ⟨t, ht, x, a, hx, hdepth, ha, heq⟩
  · have hempty : d.result = none := hempty
    rw [hresult] at hempty
    cases hempty
  · have ha : Draft.result? x = d.result := ha.trans heq.symm
    rw [hresult] at ha
    obtain ⟨o, ho, hnormal⟩ := Option.map_eq_some_iff.mp ha
    rcases Value.optional?_eq_some.mp ho with ⟨-, rfl⟩ | ⟨hnull, w, hw, rfl⟩
    · cases hnormal
    · cases hw
      obtain rfl := Option.some.inj hnormal
      have htree : t.isWhole := document.tree.isWhole_of_mem_children (hwhole document htext) ht
      exact ⟨normal_ne_null hnull, x.isTidy_normal _ ((t.isWhole_value x hx).1 htree) hdepth⟩

theorem decode_of_raw {text : String} {reason : Envelope.Refusal}
    (h : Envelope.decode content = .raw text reason) :
    decode content none =
      ⟨60000, false, "`" ++ text ++ "`: exec result unmarshal failed, err: " ++
        reason.message text, none⟩ := by
  unfold decode
  rw [h]
  change Response.mk 60000 false
    (ResultCode.resultUnreadable.render [text, reason.message text]) none = _
  rw [ResultCode.render_resultUnreadable]

theorem isTidy_decode (hwhole : IsWhole (Text.trim content)) : (decode content none).IsTidy := by
  cases h : Envelope.decode content with
  | structured r =>
    rw [decode_of_structured h]
    exact isTidy_of_decode hwhole h
  | raw text reason =>
    rw [decode_of_raw h]
    intro v hv
    cases hv

/-- What is decoded from a text whose numbers are integers of 64 bits is decoded from the text that
it prints to. An envelope of any form is decoded to what it says, and any other text to the failure
that carries the text, without the white space at its ends, and why it is none. -/
theorem decode_print_decode (content : String) (hwhole : IsWhole (Text.trim content)) :
    decode (decode content none).print none = decode content none ∧
    (∀ r, Envelope.decode content = .structured r → decode content none = r) ∧
    ∀ text reason, Envelope.decode content = .raw text reason → text = Text.trim content ∧
      decode content none =
        ⟨60000, false, "`" ++ text ++ "`: exec result unmarshal failed, err: " ++
          reason.message text, none⟩ := by
  refine ⟨?_, fun r h => decode_of_structured h none,
    fun text reason h => ⟨eq_trim_of_raw h, decode_of_raw h⟩⟩
  rw [decode, decode_print (isTidy_decode hwhole)]

/-- A key that a result repeats, an unknown member, and text that is no JSON, with white space
around it. -/
theorem decode_print_decode_repeated_key :
    let nested := "\x7b\"result\": \x7b\"b\": 1, \"a\": [null], \"b\": -2\x7d, " ++
      "\"x\": 7, \"code\": 200, \"success\": true\x7d"
    let sorted := Value.object (.ofList [("a", .array (.ofList [.null])), ("b", .int (-2))])
    let plain := " Killed: \"eth0\"\n"
    let reason := "expected value at line 1 column 1"
    decode (decode nested none).print none = decode nested none ∧
      Envelope.decode nested = .structured ⟨200, true, "", some sorted⟩ ∧
      decode nested none = ⟨200, true, "", some sorted⟩ ∧
      decode (decode plain none).print none = decode plain none ∧
      decode plain none =
        ⟨60000, false, "`Killed: \"eth0\"`: exec result unmarshal failed, err: " ++ reason,
          none⟩ := by
  intro nested sorted plain reason
  have hnested : IsWhole (Text.trim nested) := by
    have hread : (Json.ofText (Text.trim nested)).toOption = some (.object (.ofList
        [("result", .object (.ofList
          [("b", .int 1), ("a", .array (.ofList [.null])), ("b", .int (-2))])),
        ("x", .int 7), ("code", .int 200), ("success", .bool true)])) := by
      decide +kernel
    exact isWhole_of_ofText (toOption_eq_some.mp hread) (by decide)
  have hplain : IsWhole (Text.trim plain) := fun d hd =>
    (not_isJson_of_skip (s := Text.trim plain) (by decide +kernel) ⟨d, hd⟩).elim
  have henvelope : Envelope.decode nested = .structured ⟨200, true, "", some sorted⟩ := by
    decide +kernel
  have hraw : Envelope.decode plain = .raw "Killed: \"eth0\""
      (.malformed (.next .expectedValue "Killed: \"eth0\"".toList)) := by
    decide +kernel
  obtain ⟨hstable, hstructured, -⟩ := decode_print_decode nested hnested
  obtain ⟨hstable', -, hfailure⟩ := decode_print_decode plain hplain
  obtain ⟨-, hdecode⟩ := hfailure _ _ hraw
  exact ⟨hstable, henvelope, hstructured _ henvelope, hstable', hdecode.trans (by decide +kernel)⟩

end HostReach.Response
