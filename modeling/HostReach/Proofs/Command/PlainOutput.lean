import HostReach.Proofs.Command.Classification
import HostReach.Proofs.Response.Wire

/-!
Output that is no JSON object. Only an array can be taken for an envelope then, and only one whose
elements are those of an envelope in order; all other output is kept as it is.
-/
namespace HostReach.Response

open Json

theorem exists_array_of_decode {content : String} {r : Response}
    (h : Envelope.decode content = .structured r) (hobject : ¬IsObject (Text.trim content)) :
    ∃ vs : List Value, Denotes (Text.trim content) (.array (.ofList vs)) ∧
      (Value.array (.ofList vs)).depth ≤ maxDepth := by
  obtain ⟨d, hread, -⟩ := decode_eq_structured.mp h
  obtain ⟨document, htext, -, htree | ⟨vs, hvs, hdepth⟩⟩ :=
    Draft.wireLayout.exists_document_of_ofText hread
  · exact absurd ⟨document, htext, htree⟩ hobject
  · refine ⟨vs.toList, ?_⟩
    rw [Values.ofList_toList]
    exact ⟨⟨document, htext, hvs⟩, hdepth⟩

/-- Output that is no JSON object is an envelope only as an array of three to five elements, which
are read under the keys in order. Any other is kept: with the reason, as the result of a success, or
not at all if there is a default. -/
theorem decode_of_not_object {content : String} (hobject : ¬IsObject (Text.trim content)) :
    (∀ r, Envelope.decode content = .structured r ↔
      ∃ vs : List Value, Denotes (Text.trim content) (.array (.ofList vs)) ∧
        (Value.array (.ofList vs)).depth ≤ 127 ∧ vs.length ≤ 5 ∧
        Envelops (.ofList (wireKeys.zip vs)) r) ∧
    ((¬∃ r, Envelope.decode content = .structured r) →
      (∃ reason, Envelope.decode content = .raw (Text.trim content) reason) ∧
      (∀ command isSelf, (Outcome.success content).classify command isSelf =
        .succeed (.text content)) ∧
      ∀ default, Response.decode content (some default) = default) ∧
    ∀ r, Envelope.decode content = .structured r →
      (∀ command isSelf, (Outcome.success content).classify command isSelf = r) ∧
      ∀ default, Response.decode content default = r := by
  have hsuccess : ¬(Outcome.success content).MeetsRule := fun h => h.1 rfl
  refine ⟨fun r => ⟨fun h => ?_, ?_⟩, fun hraw => ?_,
    fun r h => ⟨fun command isSelf => ?_, fun default => ?_⟩⟩
  · obtain ⟨vs, hvs, hdepth⟩ := exists_array_of_decode h hobject
    exact ⟨vs, hvs, hdepth, (decode_of_denotes_array hvs hdepth).mp h⟩
  · rintro ⟨vs, hvs, hdepth, henvelops⟩
    exact (decode_of_denotes_array hvs hdepth).mpr henvelops
  · obtain ⟨reason, hdecode⟩ := exists_raw (not_exists.mp hraw)
    refine ⟨⟨reason, hdecode⟩, fun command isSelf => ?_, fun default => ?_⟩
    · exact Outcome.classify_of_success command isSelf rfl hdecode
    · unfold Response.decode
      rw [hdecode]
      rfl
  · exact Outcome.classify_of_structured command isSelf hsuccess h
  · exact decode_of_structured h default

/-- A list of two numbers and a word is an envelope, two numbers are none. -/
theorem decode_of_not_object_array :
    (Envelope.decode "[1, 404, false]" = .structured ⟨404, false, "", none⟩ ∧
      Response.decode "[1, 404, false]" (some succeedEmpty) = ⟨404, false, "", none⟩) ∧
    (Outcome.success "10 20\n").classify "pgrep x" false = .succeed (.text "10 20\n") := by
  have htrim : Text.trim "[1, 404, false]" = "[1, 404, false]" := rfl
  have harray : ¬IsObject (Text.trim "[1, 404, false]") := fun h => by
    obtain ⟨u, hu⟩ := skipSpace_of_isObject h
    cases hu
  have hplain : ¬IsObject (Text.trim "10 20\n") := fun h => by
    obtain ⟨u, hu⟩ := skipSpace_of_isObject h
    cases hu
  constructor
  · have hread : (Json.ofText (Text.trim "[1, 404, false]")).toOption =
        some (.array (.ofList [.int 1, .int 404, .bool false])) := by decide +kernel
    obtain ⟨hdenotes, hdepth⟩ := ofText_eq_ok.mp (toOption_eq_some.mp hread)
    have henvelops : Envelops (.ofList (wireKeys.zip [.int 1, .int 404, .bool false]))
        ⟨404, false, "", none⟩ := by
      refine ⟨?_, ?_, ?_, .inl ⟨?_, rfl⟩, .inl ⟨?_, rfl⟩⟩
      all_goals simp [wireKeys, Members.ofList, Members.valuesOf]
    have hdecode := ((decode_of_not_object harray).1 ⟨404, false, "", none⟩).mpr
      ⟨_, hdenotes, hdepth, by decide, henvelops⟩
    exact ⟨hdecode, ((decode_of_not_object harray).2.2 _ hdecode).2 _⟩
  · obtain ⟨text, reason, hdecode⟩ : ∃ text reason, Envelope.decode "10 20\n" = .raw text reason :=
      ⟨_, _, rfl⟩
    have hraw : ¬∃ r, Envelope.decode "10 20\n" = .structured r := by simp [hdecode]
    exact ((decode_of_not_object hplain).2.1 hraw).2.1 "pgrep x" false

end HostReach.Response
