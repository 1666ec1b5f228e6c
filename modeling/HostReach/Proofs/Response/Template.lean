import HostReach.Response.Catalog

/-!
Filling a template: text without percent signs stays, and a place takes its flag as it is.
-/
namespace HostReach.ResultCode

theorem fill_append {l : List Char} (hl : '%' ∉ l) (t : List Char) (flags : List String) :
    fill (l ++ t) flags = l ++ fill t flags := by
  induction l with
  | nil => rfl
  | cons c l ih =>
    rw [List.mem_cons, not_or] at hl
    have hc : c ≠ '%' := Ne.symm hl.1
    rw [List.cons_append, fill, ih hl.2, List.cons_append] <;> simp [hc]

theorem fill_place {c : Char} (hc : c = 's' ∨ c = 'v') (t : List Char) (flag : String)
    (flags : List String) : fill ('%' :: c :: t) (flag :: flags) = flag.toList ++ fill t flags := by
  rcases hc with rfl | rfl
  · rfl
  · rfl

theorem fill_nil (t : List Char) : fill t [] = t := by
  induction t with
  | nil => rfl
  | cons c t ih =>
    by_cases hc : c = '%'
    · simp [hc, fill, ih]
    · simp [fill, ih]

theorem render_place {code : ResultCode} {head tail : String} {c : Char}
    (htemplate : code.template.toList = head.toList ++ '%' :: c :: tail.toList)
    (hhead : '%' ∉ head.toList) (hc : c = 's' ∨ c = 'v')
    (flag : String) : code.render [flag] = head ++ flag ++ tail := by
  apply String.toList_injective
  rw [render, String.toList_ofList, htemplate, fill_append hhead, fill_place hc, fill_nil]
  simp

theorem render_places {code : ResultCode} {head middle : String} {c d : Char}
    (htemplate : code.template.toList = head.toList ++ '%' :: c :: (middle.toList ++ ['%', d]))
    (hhead : '%' ∉ head.toList) (hc : c = 's' ∨ c = 'v') (hmiddle : '%' ∉ middle.toList)
    (hd : d = 's' ∨ d = 'v') (flag last : String) :
    code.render [flag, last] = head ++ flag ++ middle ++ last := by
  apply String.toList_injective
  rw [render, String.toList_ofList, htemplate, fill_append hhead, fill_place hc,
    fill_append hmiddle, fill_place hd, fill_nil]
  simp

theorem render_commandFailed (command error : String) :
    commandFailed.render [command, error] =
      "`" ++ command ++ "`: cmd exec failed, err: " ++ error :=
  render_places rfl (by decide) (.inl rfl) (by decide) (.inr rfl) command error

theorem render_resultUnreadable (text reason : String) :
    resultUnreadable.render [text, reason] =
      "`" ++ text ++ "`: exec result unmarshal failed, err: " ++ reason :=
  render_places rfl (by decide) (.inl rfl) (by decide) (.inr rfl) text reason

theorem render_binaryNotFound (script : String) :
    binaryNotFound.render [script] = "`" ++ script ++ "`: chaosblade file not found" :=
  render_place rfl (by decide) (.inl rfl) script

theorem render_commandNotFound (name : String) :
    commandNotFound.render [name] = "`" ++ name ++ "`: command not found" :=
  render_place rfl (by decide) (.inl rfl) name

theorem render_illegalCommand (script : String) :
    illegalCommand.render [script] = "illegal command, err: " ++ script := by
  have htemplate : illegalCommand.template.toList =
      "illegal command, err: ".toList ++ '%' :: 'v' :: "".toList := rfl
  simpa using render_place htemplate (by decide) (.inr rfl) script

end HostReach.ResultCode
