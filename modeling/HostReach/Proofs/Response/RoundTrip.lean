import HostReach.Proofs.Json.Normal
import HostReach.Proofs.Json.Record
import HostReach.Proofs.Text.Trim
import HostReach.Response.Envelope

/-!
A printed response is read back as it was, but for a result that is `null`, which is read as none.
Both forms that it can be read in agree on that, as long as its result does not nest too deep for
the reader.
-/
namespace HostReach.Response

open Json

def receivedResult (v : Value) : Option Value := if v = .null then none else some v.normal

/-- What a printed response comes back as. -/
def received (r : Response) : Response := { r with result := r.result.bind receivedResult }

def afterCode (r : Response) : Draft := { code := some r.code }

def afterSuccess (r : Response) : Draft := { r.afterCode with success := some r.success }

def afterError (r : Response) : Draft :=
  { r.afterSuccess with error := if r.error.isEmpty then none else some (some r.error) }

def draft (r : Response) : Draft := { r.afterError with result := r.result.map receivedResult }

theorem response_draft (r : Response) : r.draft.response = r.received := by
  have herror : (r.draft.error.getD none).getD "" = r.error := by
    unfold draft afterError
    by_cases h : r.error.isEmpty
    · rw [if_pos h, String.isEmpty_iff.mp h]
      rfl
    · rw [if_neg h]
      rfl
  have hresult : r.draft.result.getD none = r.result.bind receivedResult := by
    unfold draft
    cases r.result <;> rfl
  unfold Draft.response received
  rw [herror, hresult]
  rfl

/-- A form of a record whose fields take the members of a printed response. -/
structure IsForm (form : Shape Draft) : Prop where
  code : form.field? "code" = some Draft.codeField
  success : form.field? "success" = some Draft.successField
  error : ∃ field, form.field? "error" = some field ∧ (∀ d, field.isFilled d = d.error.isSome) ∧
    ∀ (s : Style) (levels : Nat) (t : String),
      field.Takes s levels (.text t) fun d => { d with error := some (some t) }
  result : form.field? "result" = some Draft.resultField
  /-- Nothing else is missing once the code and the success are there. -/
  complete : ∀ d : Draft, d.code.isSome → d.success.isSome → form.missing? d = none

theorem isForm_shape : IsForm Draft.shape where
  code := rfl
  success := rfl
  error := by
    refine ⟨Draft.errorField, rfl, fun _ => rfl, ?_⟩
    intro s levels t depth rest _
    unfold Draft.errorField Field.of
    simp only [readTextOf_gap, readTextOf_write]
    rfl
  result := rfl
  complete := by
    intro d hcode hsuccess
    simp [Shape.missing?, Draft.shape, Draft.codeField, Draft.successField, Draft.errorField,
      Draft.resultField, Field.of, hcode, hsuccess]

theorem isForm_wireShape : IsForm Draft.wireShape where
  code := rfl
  success := rfl
  error := by
    refine ⟨Draft.wireErrorField, rfl, fun _ => rfl, ?_⟩
    intro s levels t depth rest _
    have htext : (Value.text t).isIntegral := rfl
    unfold Draft.wireErrorField Field.of
    simp only [readOptional_write htext (by simp), readTextOf_write]
    rfl
  result := rfl
  complete := by
    intro d hcode hsuccess
    simp [Shape.missing?, Draft.wireShape, Draft.codeField, Draft.successField,
      Draft.wireErrorField, Draft.resultField, Draft.versionField, Field.of, hcode, hsuccess]

theorem codeField_takes (s : Style) (levels : Nat) (c : Int32) :
    Draft.codeField.Takes s levels (.int c.toInt) fun d => { d with code := some c } := by
  intro depth rest hrest
  have hlow : -Nat.pow 2 31 ≤ c.toInt := c.le_toInt
  have hhigh : c.toInt ≤ Nat.pow 2 31 - 1 := Int.le_sub_one_of_lt c.toInt_lt
  have hintegral : (Value.int c.toInt).isIntegral := by
    rw [Nat.pow_eq] at hlow hhigh
    simp only [Value.isIntegral, Bool.and_eq_true, decide_eq_true_eq, Nat.pow_eq]
    omega
  unfold Draft.codeField Field.of
  simp only [readInt_write hintegral hlow hhigh "i32" depth hrest]
  simp [Except.map]

theorem successField_takes (s : Style) (levels : Nat) (b : Bool) :
    Draft.successField.Takes s levels (.bool b) fun d => { d with success := some b } := by
  intro depth rest _
  unfold Draft.successField Field.of
  simp only [readBool_write]
  rfl

theorem resultField_takes {s : Style} (hs : s.IsSpaced) {levels : Nat} {v : Value}
    (hv : v.isIntegral) (hlevels : v.depth ≤ levels) :
    Draft.resultField.Takes s levels v fun d => { d with result := some (receivedResult v) } := by
  intro depth rest hrest
  unfold Draft.resultField Field.of receivedResult
  by_cases hnull : v = .null
  · subst hnull
    simp only [readOptional_null]
    rfl
  · simp only [readOptional_write hv hnull, Json.read_write hs hv hlevels hrest, if_neg hnull]
    rfl

theorem resultField_refuses {s : Style} (hs : s.IsSpaced) {levels : Nat} {v : Value}
    (hv : v.isIntegral) (hlevels : levels < v.depth) : Draft.resultField.Refuses s levels v := by
  intro depth rest hrest
  have hnull : v ≠ .null := by
    rintro rfl
    simp [Value.depth] at hlevels
  obtain ⟨f, hf⟩ := read_write_of_too_deep hs hv hlevels depth hrest
  refine ⟨f, ?_⟩
  unfold Draft.resultField Field.of
  simp only [readOptional_write hv hnull, hf]
  rfl

def lastMembers (r : Response) : List (String × Value) :=
  (if r.error.isEmpty then [] else [("error", .text r.error)]) ++
    (match r.result with
     | none => []
     | some v => [("result", v)])

def resultMembers (r : Response) : List (String × Value) :=
  match r.result with
  | none => []
  | some v => [("result", v)]

variable {form : Shape Draft} {s : Style} {levels : Nat} {final : Draft → Members → Prop}

theorem IsForm.reaches (hform : IsForm form) {r : Response}
    (h : form.Reaches s levels final r.afterError (.ofList r.resultMembers)) :
    form.Reaches s levels final {} r.members := by
  have hlast : form.Reaches s levels final r.afterSuccess (.ofList r.lastMembers) := by
    unfold afterError at h
    unfold lastMembers
    by_cases hempty : r.error.isEmpty
    · rw [if_pos hempty] at h ⊢
      exact h
    · obtain ⟨field, hkey, hfilled, htakes⟩ := hform.error
      rw [if_neg hempty] at h ⊢
      exact .next hkey (hfilled _) (htakes s levels r.error) h
  exact .next hform.code rfl (codeField_takes s levels r.code)
    (.next hform.success rfl (successField_takes s levels r.success) hlast)

def resultDepth (r : Response) : Nat := (r.result.map Value.depth).getD 0

theorem IsForm.fills (hform : IsForm form) (hs : s.IsSpaced) {r : Response}
    (hr : ∀ v ∈ r.result, v.isIntegral) (hdepth : r.resultDepth ≤ levels) :
    form.Fills s levels r.draft {} r.members := by
  apply hform.reaches
  unfold resultDepth at hdepth
  unfold draft resultMembers
  cases hresult : r.result with
  | none => exact .here ⟨rfl, rfl⟩
  | some v =>
    rw [hresult] at hdepth
    have htakes := resultField_takes hs (hr v hresult) hdepth
    exact .next hform.result rfl htakes (.here ⟨rfl, rfl⟩)

theorem IsForm.refuses (hform : IsForm form) (hs : s.IsSpaced) {r : Response}
    (hr : ∀ v ∈ r.result, v.isIntegral) (hdepth : levels < r.resultDepth) :
    form.Refuses s levels {} r.members := by
  apply hform.reaches
  unfold resultDepth at hdepth
  unfold resultMembers
  cases hresult : r.result with
  | none => simp [hresult] at hdepth
  | some v =>
    rw [hresult] at hdepth
    exact .here ⟨_, _, _, _, rfl, hform.result, rfl, resultField_refuses hs (hr v hresult) hdepth⟩

theorem isBlank_of_isSpace {c : Char} (h : isSpace c = true) : isBlank c = true := by
  simp only [isSpace, Bool.or_eq_true, beq_iff_eq] at h
  rcases h with ((rfl | rfl) | rfl) | rfl <;> decide

theorem toList_printed {r : Response} {t : String} (ht : t = r.print ∨ t = r.pretty) :
    ∃ (s : Style) (newline : List Char), s.IsSpaced ∧ (∀ c ∈ newline, isSpace c) ∧
      t.toList = r.toJson.write s 0 ++ newline := by
  rcases ht with rfl | rfl
  · refine ⟨.compact, [], trivial, by simp, ?_⟩
    simp [print, Value.compact]
  · refine ⟨.indented ['\t'], ['\n'], by simp [Style.IsSpaced, isSpace], by simp [isSpace], ?_⟩
    simp [pretty, Value.indented]

theorem writeRest_eq_append (ms : Members) (s : Style) (depth : Nat) :
    ∃ body, ms.writeRest s depth = body ++ ['\x7d'] := by
  induction ms using Members.toList.induct with
  | case1 => exact ⟨s.lineBreak depth, rfl⟩
  | case2 k v ms ih =>
    obtain ⟨body, hbody⟩ := ih
    rw [Members.writeRest, hbody, ← List.append_assoc]
    exact ⟨_, rfl⟩

theorem toJson_write_eq_append (r : Response) (s : Style) :
    ∃ body, r.toJson.write s 0 = '\x7b' :: (body ++ ['\x7d']) := by
  obtain ⟨k, v, ms, hms⟩ : ∃ k v ms, r.members = .cons k v ms := ⟨_, _, _, rfl⟩
  obtain ⟨body, hbody⟩ := writeRest_eq_append ms s 0
  unfold toJson
  rw [hms, Value.write, hbody, ← List.append_assoc]
  exact ⟨_, rfl⟩

theorem trim_printed {r : Response} {s : Style} {newline : List Char} {t : String}
    (hnewline : ∀ c ∈ newline, isSpace c) (ht : t.toList = r.toJson.write s 0 ++ newline)
    {before after : String} (hbefore : Text.isBlank before) (hafter : Text.isBlank after) :
    Text.trim (before ++ t ++ after) = String.ofList (r.toJson.write s 0) := by
  have hblank : ∀ c ∈ newline ++ after.toList, isBlank c := by
    intro c hc
    rcases List.mem_append.mp hc with hc | hc
    · exact isBlank_of_isSpace (hnewline c hc)
    · exact List.all_eq_true.mp hafter c hc
  obtain ⟨body, hbody⟩ := r.toJson_write_eq_append s
  unfold Text.trim
  rw [String.toList_append, String.toList_append, ht, ← List.append_assoc, List.append_assoc, hbody,
    Chars.trim_padded (List.all_eq_true.mp hbefore) hblank (by decide) (by decide)]

theorem IsForm.ofText_printed (hform : IsForm form) (hs : s.IsSpaced) {r : Response}
    (hr : ∀ v ∈ r.result, v.isIntegral) (hdepth : r.resultDepth ≤ 126) {t : String}
    {newline : List Char} (hnewline : ∀ c ∈ newline, isSpace c)
    (ht : t.toList = r.toJson.write s 0 ++ newline) : form.ofText {} t = .ok r.draft := by
  have hclose := hform.complete r.draft rfl rfl
  have hread := Shape.read_write hs (hform.fills hs hr hdepth) hclose 0 newline
  have hend : skipSpace newline = [] := by
    rw [← List.append_nil newline, skipSpace_append hnewline]
    rfl
  unfold Shape.ofText maxDepth
  unfold toJson at ht
  rw [ht, hread]
  simp only [finish, hend]

theorem IsForm.ofText_printed_of_too_deep (hform : IsForm form) (hs : s.IsSpaced) {r : Response}
    (hr : ∀ v ∈ r.result, v.isIntegral) (hdepth : 126 < r.resultDepth) {t : String}
    {newline : List Char} (ht : t.toList = r.toJson.write s 0 ++ newline) :
    ∃ f, form.ofText {} t = .error f := by
  obtain ⟨f, hf⟩ := Shape.read_write_of_refuses hs (hform.refuses hs hr hdepth) 0 newline
  refine ⟨f, ?_⟩
  unfold Shape.ofText maxDepth
  unfold toJson at ht
  rw [ht, hf]
  rfl

theorem received_of_isSorted {r : Response} (hr : ∀ v ∈ r.result, v.isSorted) :
    r.received = { r with result := if r.result = some .null then none else r.result } := by
  unfold received receivedResult
  cases hresult : r.result with
  | none => rfl
  | some v =>
    have hnormal : v.normal = v := v.normal_of_isSorted (hr v hresult)
    by_cases hnull : v = .null
    · simp [hnull]
    · simp [hnull, hnormal]

theorem received_eq_self_iff {r : Response} (hr : ∀ v ∈ r.result, v.isSorted) :
    r.received = r ↔ r.result ≠ some .null := by
  rw [received_of_isSorted hr]
  obtain ⟨code, success, error, result⟩ := r
  change _ ↔ result ≠ some .null
  by_cases hnull : result = some .null
  · simp [hnull]
  · simp [hnull]

/-- A printed response, whatever white space stands around it, is read back up to the `null` that a
result may be, in the form on the wire and in its own; if its result nests too deep it is no
envelope. -/
theorem decode_printed {r : Response} (hr : ∀ v ∈ r.result, v.isIntegral) {t : String}
    (ht : t = r.print ∨ t = r.pretty) {before after : String} (hbefore : Text.isBlank before)
    (hafter : Text.isBlank after) :
    (r.resultDepth ≤ 126 →
      Envelope.decode (before ++ t ++ after) = .structured r.received ∧ ofText t = .ok r.received) ∧
    (126 < r.resultDepth →
      ∃ f, Envelope.decode (before ++ t ++ after) = .raw (Text.trim t) (.malformed f)) ∧
    ((∀ v ∈ r.result, v.isSorted) →
      r.received = { r with result := if r.result = some .null then none else r.result } ∧
        (r.received = r ↔ r.result ≠ some .null)) := by
  obtain ⟨s, newline, hs, hnewline, htext⟩ := toList_printed ht
  have htrim := trim_printed hnewline htext hbefore hafter
  have htrim_self : Text.trim t = String.ofList (r.toJson.write s 0) := by
    have h :=
      trim_printed hnewline htext (show Text.isBlank "" from rfl) (show Text.isBlank "" from rfl)
    rwa [String.empty_append, String.append_empty] at h
  have hline : (String.ofList (r.toJson.write s 0)).toList = r.toJson.write s 0 ++ [] := by
    rw [String.toList_ofList, List.append_nil]
  refine ⟨fun hdepth => ⟨?_, ?_⟩, fun hdepth => ?_, fun hsorted => ⟨?_, ?_⟩⟩
  · have hread := isForm_wireShape.ofText_printed hs hr hdepth (by simp) hline
    unfold Envelope.decode
    simp only [htrim, hread, response_draft]
    rfl
  · have hread := isForm_shape.ofText_printed hs hr hdepth hnewline htext
    unfold ofText
    rw [hread, Except.map, response_draft]
  · obtain ⟨f, hf⟩ := isForm_wireShape.ofText_printed_of_too_deep hs hr hdepth hline
    refine ⟨f, ?_⟩
    unfold Envelope.decode
    simp only [htrim, htrim_self, hf]
  · exact received_of_isSorted hsorted
  · exact received_eq_self_iff hsorted

/-- A failure with a quoted word, whose result nests twice, between white space of several
scripts. -/
theorem decode_printed_nested_failure :
    let r : Response :=
      ⟨63063, false, "no \"such\" rule",
        some (.object (.cons "a\\b" (.array (.cons (.int (-1)) .nil)) .nil))⟩
    Envelope.decode ("\u2003" ++ r.pretty ++ "\t\u3000") = .structured r ∧
    ofText r.pretty = .ok r := by
  intro r
  have hintegral : ∀ v ∈ r.result, v.isIntegral := by
    simp [r, Value.isIntegral, Values.isIntegral, Members.isIntegral]
  have hbefore : Text.isBlank "\u2003" := by decide
  have hafter : Text.isBlank "\t\u3000" := by decide
  have h := decode_printed hintegral (.inr rfl) hbefore hafter
  have hsorted : ∀ v ∈ r.result, v.isSorted := by
    simp [r, Value.isSorted, Values.isSorted, Members.isSorted, Members.keys, Members.toList]
  have hself : r.received = r := (h.2.2 hsorted).2.mpr (by simp [r])
  have hread := h.1 (by decide)
  rwa [hself] at hread

end HostReach.Response
