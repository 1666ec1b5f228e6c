import HostReach.Lookup.Pipeline
import HostReach.Proofs.Lookup.Row
import HostReach.Proofs.Response.Wire

/-!
A column of process ids, whatever white space it is written with. It is never taken for an envelope,
although a single id is a JSON text, and reading it gives the ids back but for the caller's own.
-/
namespace HostReach

open Json Chars

theorem Json.Shape.read_digit {δ : Type} (s : Shape δ) (empty : δ) (levels : Nat) {d : Char}
    (hd : Decimal.isDigit d = true) (t : List Char) :
    s.read empty levels (d :: t) = .error (mismatch s.expected (d :: t)) := by
  rw [Shape.read, skipSpace_cons (isSpace_of_isDigit hd)]
  split
  · next heq => cases heq
  · next heq =>
    cases heq
    cases hd
  · next heq =>
    cases heq
    cases hd
  · rfl

namespace Lookup

/-- A text that lists process ids in decimal: white space before each of them and behind the last
one, and behind each of them at least some, unless the text ends there. -/
inductive IsColumn : List UInt32 → List Char → Prop where
  | blank {w : List Char} (hw : ∀ c ∈ w, isBlank c = true) : IsColumn [] w
  | pid (pid : UInt32) {pids : List UInt32} {gap t : List Char} (hgap : ∀ c ∈ gap, isBlank c = true)
      (hapart : ∀ c ∈ t.head?, isBlank c = true) (ht : IsColumn pids t) :
      IsColumn (pid :: pids) (gap ++ ((pidText pid).toList ++ t))

theorem words_column {pids : List UInt32} {t : List Char} (h : IsColumn pids t) :
    words t = pids.map fun pid => (pidText pid).toList := by
  induction h with
  | blank hw => exact words_of_blank hw
  | @pid pid pids gap t hgap hapart ht ih =>
    rw [words_blank_append hgap, List.map_cons]
    -- The id is a word of its own: the text ends behind it or goes on with white space.
    cases t with
    | nil =>
      rw [← ih, List.append_nil]
      exact words_of_word (isPlain_pidText pid).1 (notBlank_pidText pid)
    | cons c t =>
      have hc : isBlank c = true := hapart c rfl
      rw [← ih, words_append_cons (isPlain_pidText pid).1 (notBlank_pidText pid) hc]
      exact congrArg _ (words_blank_append (w := [c]) (by simpa using hc) t).symm

theorem trim_column {pids : List UInt32} {t : List Char} (h : IsColumn pids t) :
    trim t = [] ∨ ∃ d u, Decimal.isDigit d = true ∧ trim t = d :: u := by
  cases h with
  | blank hw => exact .inl (trim_eq_nil.mpr hw)
  | @pid pid pids gap t hgap hapart ht =>
    obtain ⟨d, ds, hds⟩ := List.exists_cons_of_ne_nil (isPlain_pidText pid).1
    have hd : Decimal.isDigit d = true := by
      apply Decimal.isDigit_of_mem_digits (n := pid.toNat)
      rw [← toList_pidText, hds]
      exact List.mem_cons_self
    have hblank : isBlank d = false :=
      notBlank_pidText pid d (by rw [hds]; exact List.mem_cons_self)
    refine .inr ⟨d, trimRight (ds ++ t), hd, ?_⟩
    rw [trim, trimLeft_append_of_blank hgap, hds, List.cons_append, trimLeft_cons hblank,
      trimRight_cons hblank]

theorem decode_column {pids : List UInt32} {text : String} (h : IsColumn pids text.toList)
    (r : Response) :
    Envelope.decode text ≠ .structured r := by
  intro hdecode
  obtain ⟨d, hread, -⟩ := Response.decode_eq_structured.mp hdecode
  rw [Shape.ofText, Text.trim, String.toList_ofList] at hread
  rcases trim_column h with hempty | ⟨d, u, hd, htrim⟩
  · rw [hempty] at hread
    cases hread
  · rw [htrim, Shape.read_digit _ _ _ hd] at hread
    cases hread

end Lookup

end HostReach
