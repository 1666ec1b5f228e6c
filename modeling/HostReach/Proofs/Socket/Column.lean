import HostReach.Proofs.Text.DecimalDigit
import HostReach.Proofs.Text.Occurrence
import HostReach.Socket
import Mathlib.Data.List.Infix

/-!
The last column of a socket. Where it names processes, each with or without a label before its id,
their ids are what is read from it, and nothing is read from a column without a labelled number or a
number between commas.
-/
namespace HostReach.Socket

def IsNumber (ds : List Char) : Prop := ds ≠ [] ∧ ∀ d ∈ ds, isDecimalDigit d = true

instance (ds : List Char) : Decidable (IsNumber ds) :=
  decidable_of_iff (ds ≠ [] ∧ ds.all isDecimalDigit = true) (by rw [List.all_eq_true, IsNumber])

def HasLabel (t : List Char) : Prop :=
  ∃ a d b, isDecimalDigit d = true ∧ t = a ++ ['p', 'i', 'd', '=', d] ++ b

def HasBetweenCommas (t : List Char) : Prop := ∃ a ds b, IsNumber ds ∧
    t = a ++ (',' :: (ds ++ ',' :: b))

/-- A process that has a socket open: its name, its id, which may be labelled, and the file
descriptor. -/
structure User where
  name : List Char
  pid : List Char
  descriptor : List Char
  isLabelled : Bool
  name_notBlank : ∀ c ∈ name, isBlank c = false
  name_noComma : ',' ∉ name
  name_noLabel : ¬HasLabel name
  pid_isNumber : IsNumber pid
  descriptor_isNumber : IsNumber descriptor

def User.label (u : User) : List Char := if u.isLabelled then ['p', 'i', 'd', '='] else []

/-- A process as the column names it: `("name",pid=12,fd=3)` or `("name",12,fd=3)`. -/
def User.chars (u : User) : List Char :=
  '(' :: '"' ::
    (u.name ++ '"' :: ',' ::
      (u.label ++ (u.pid ++ ',' :: 'f' :: 'd' :: '=' :: (u.descriptor ++ [')']))))

/-- The last column of a socket: the processes that have it open, or a field in which no id is
recognized. -/
inductive Column where
  | users (first : User) (others : List User)
  | other (chars : List Char) (ne_nil : chars ≠ []) (notBlank : ∀ c ∈ chars, isBlank c = false)
      (noLabel : ¬HasLabel chars) (noCommas : ¬HasBetweenCommas chars)

namespace Column

def chars : Column → List Char
  | .users first others =>
    'u' :: 's' :: 'e' :: 'r' :: 's' :: ':' :: '(' ::
      (first.chars ++ (others.flatMap (',' :: ·.chars) ++ [')']))
  | .other chars .. => chars

def processes : Column → List User
  | .users first others => first :: others
  | .other .. => []

end Column

section Numbers

variable {ds t : List Char} {d : Char}

theorem takeWhile_digits (hds : ∀ d ∈ ds, isDecimalDigit d = true) (hd : isDecimalDigit d = false) :
    (ds ++ d :: t).takeWhile isDecimalDigit = ds := by
  rw [List.takeWhile_append_of_pos hds, List.takeWhile_cons, hd]
  simp

theorem dropWhile_digits (hds : ∀ d ∈ ds, isDecimalDigit d = true) (hd : isDecimalDigit d = false) :
    (ds ++ d :: t).dropWhile isDecimalDigit = d :: t := by
  rw [List.dropWhile_append_of_pos hds, List.dropWhile_cons, hd]
  simp

theorem isDecimalDigit_comma : isDecimalDigit ',' = false := by decide +kernel

theorem labelled?_number (hds : IsNumber ds) (hd : isDecimalDigit d = false) :
    labelled? ('p' :: 'i' :: 'd' :: '=' :: (ds ++ d :: t)) = some ds := by
  simp [labelled?, takeWhile_digits hds.2 hd, hds.1]

theorem betweenCommas?_number (hds : IsNumber ds) :
    betweenCommas? (',' :: (ds ++ ',' :: t)) = some ds := by
  simp [betweenCommas?, takeWhile_digits hds.2 isDecimalDigit_comma,
    dropWhile_digits hds.2 isDecimalDigit_comma, hds.1]

theorem labelled?_eq_some (h : labelled? t = some ds) :
    ∃ d u, isDecimalDigit d = true ∧ t = 'p' :: 'i' :: 'd' :: '=' :: d :: u := by
  unfold labelled? at h
  split at h
  · next u =>
    cases hu : u with
    | nil => simp [hu] at h
    | cons d v =>
      by_cases hd : isDecimalDigit d = true
      · exact ⟨d, v, hd, rfl⟩
      · simp [hu, hd] at h
  · cases h

theorem betweenCommas?_eq_some (h : betweenCommas? t = some ds) :
    IsNumber ds ∧ ∃ u, t = ',' :: (ds ++ ',' :: u) := by
  unfold betweenCommas? at h
  split at h
  · next u =>
    have hcut : u = u.takeWhile isDecimalDigit ++ u.dropWhile isDecimalDigit :=
      List.takeWhile_append_dropWhile.symm
    have hdigits := List.all_eq_true.mp (List.all_takeWhile (p := isDecimalDigit) (l := u))
    by_cases hnone : u.takeWhile isDecimalDigit = []
    · simp [hnone] at h
    · by_cases hcomma : (u.dropWhile isDecimalDigit).head? = some ','
      · obtain ⟨v, hv⟩ := List.head?_eq_some_iff.mp hcomma
        obtain rfl : u.takeWhile isDecimalDigit = ds := by simpa [hnone, hcomma] using h
        exact ⟨⟨hnone, hdigits⟩, v, by rw [← hv, ← hcut]⟩
      · simp [hnone, hcomma] at h
  · cases h

theorem hasLabel_iff : HasLabel t ↔ ∃ s ∈ t.tails, (labelled? s).isSome := by
  simp only [List.mem_tails]
  constructor
  · rintro ⟨a, d, b, hd, rfl⟩
    exact ⟨'p' :: 'i' :: 'd' :: '=' :: d :: b, ⟨a, by simp⟩, by simp [labelled?, hd]⟩
  · rintro ⟨s, ⟨a, rfl⟩, hs⟩
    obtain ⟨ds, hds⟩ := Option.isSome_iff_exists.mp hs
    obtain ⟨d, u, hd, rfl⟩ := labelled?_eq_some hds
    exact ⟨a, d, u, hd, by simp⟩

theorem hasBetweenCommas_iff : HasBetweenCommas t ↔ ∃ s ∈ t.tails, (betweenCommas? s).isSome := by
  simp only [List.mem_tails]
  constructor
  · rintro ⟨a, ds, b, hds, rfl⟩
    exact ⟨',' :: (ds ++ ',' :: b), ⟨a, rfl⟩, by simp [betweenCommas?_number hds]⟩
  · rintro ⟨s, ⟨a, rfl⟩, hs⟩
    obtain ⟨ds, hds⟩ := Option.isSome_iff_exists.mp hs
    obtain ⟨hnumber, u, rfl⟩ := betweenCommas?_eq_some hds
    exact ⟨a, ds, u, hnumber, rfl⟩

theorem labelled?_eq_none (h : ¬HasLabel t) : labelled? t = none := by
  apply Option.not_isSome_iff_eq_none.mp
  intro hsome
  exact h (hasLabel_iff.mpr ⟨t, (List.mem_tails t t).mpr List.suffix_rfl, hsome⟩)

theorem betweenCommas?_eq_none (h : ¬HasBetweenCommas t) : betweenCommas? t = none := by
  apply Option.not_isSome_iff_eq_none.mp
  intro hsome
  exact h (hasBetweenCommas_iff.mpr ⟨t, (List.mem_tails t t).mpr List.suffix_rfl, hsome⟩)

instance : Decidable (HasLabel t) :=
  decidable_of_iff (t.tails.any fun s => (labelled? s).isSome)
    (by rw [List.any_eq_true, hasLabel_iff])

instance : Decidable (HasBetweenCommas t) :=
  decidable_of_iff (t.tails.any fun s => (betweenCommas? s).isSome)
    (by rw [List.any_eq_true, hasBetweenCommas_iff])

end Numbers

variable {t : List Char} {c : Char}

theorem pidsFrom_taken (s t : List Char) : pidsFrom s.length (s ++ t) = pidsFrom 0 t := by
  induction s with
  | nil => rfl
  | cons c s ih => exact ih

theorem pidsFrom_none (hlabel : labelled? (c :: t) = none)
    (hcommas : betweenCommas? (c :: t) = none) :
    pidsFrom 0 (c :: t) = pidsFrom 0 t := by
  simp only [pidsFrom, hlabel, hcommas]

theorem pidsFrom_labelled {ds : List Char} (hds : IsNumber ds) (hc : isDecimalDigit c = false) :
    pidsFrom 0 ('p' :: 'i' :: 'd' :: '=' :: (ds ++ c :: t)) = ds :: pidsFrom 0 (c :: t) := by
  have htaken := pidsFrom_taken ('i' :: 'd' :: '=' :: ds) (c :: t)
  simp only [pidsFrom, labelled?_number hds hc]
  exact congrArg (ds :: ·) htaken

theorem pidsFrom_betweenCommas {ds : List Char} (hds : IsNumber ds) :
    pidsFrom 0 (',' :: (ds ++ ',' :: t)) = ds :: pidsFrom 0 t := by
  have htaken := pidsFrom_taken (ds ++ [',']) t
  have hnone : labelled? (',' :: (ds ++ ',' :: t)) = none := rfl
  simp only [pidsFrom, hnone, betweenCommas?_number hds]
  simpa using htaken

theorem pidsFrom_cons (hp : c ≠ 'p') (hcomma : c ≠ ',') : pidsFrom 0 (c :: t) = pidsFrom 0 t := by
  apply pidsFrom_none
  · simp [labelled?, hp]
  · simp [betweenCommas?, hcomma]

theorem pidsFrom_comma (hc : isDecimalDigit c = false) :
    pidsFrom 0 (',' :: c :: t) = pidsFrom 0 (c :: t) := by
  apply pidsFrom_none
  · rfl
  · simp [betweenCommas?, hc]

theorem pidsFrom_digits {ds : List Char} (hds : ∀ d ∈ ds, isDecimalDigit d = true) :
    pidsFrom 0 (ds ++ t) = pidsFrom 0 t := by
  induction ds with
  | nil => rfl
  | cons d ds ih =>
    rw [List.forall_mem_cons] at hds
    have hne {c : Char} (hc : isDecimalDigit c = false) : d ≠ c := by
      rintro rfl
      rw [hds.1] at hc
      cases hc
    rw [List.cons_append, pidsFrom_cons (hne (by decide +kernel)) (hne isDecimalDigit_comma),
      ih hds.2]

theorem HasLabel.cons (h : HasLabel t) (c : Char) : HasLabel (c :: t) := by
  obtain ⟨a, d, b, hd, rfl⟩ := h
  exact ⟨c :: a, d, b, hd, rfl⟩

theorem HasBetweenCommas.cons (h : HasBetweenCommas t) (c : Char) : HasBetweenCommas (c :: t) := by
  obtain ⟨a, ds, b, hds, rfl⟩ := h
  exact ⟨c :: a, ds, b, hds, rfl⟩

theorem pidsFrom_eq_nil (hlabel : ¬HasLabel t) (hcommas : ¬HasBetweenCommas t) :
    pidsFrom 0 t = [] := by
  induction t with
  | nil => rfl
  | cons c t ih =>
    have hrest := ih (mt (·.cons c) hlabel) (mt (·.cons c) hcommas)
    rw [pidsFrom_none (labelled?_eq_none hlabel) (betweenCommas?_eq_none hcommas), hrest]

theorem pidsFrom_name {name : List Char} (hcomma : ',' ∉ name) (hlabel : ¬HasLabel name)
    (t : List Char) :
    pidsFrom 0 (name ++ '"' :: t) = pidsFrom 0 t := by
  induction name with
  | nil => exact pidsFrom_cons (by decide) (by decide)
  | cons c name ih =>
    rw [List.mem_cons, not_or] at hcomma
    rw [List.cons_append, pidsFrom_none, ih hcomma.2 (mt (·.cons c) hlabel)]
    · refine Option.eq_none_iff_forall_ne_some.mpr fun ds h => hlabel ?_
      obtain ⟨d, u, hd, hu⟩ := labelled?_eq_some h
      -- A label that began in the name and went on behind it would have the quote in it.
      have hquote : '"' ∉ ['p', 'i', 'd', '=', d] := by
        have hd : '"' ≠ d := by
          rintro rfl
          revert hd
          decide +kernel
        simp [hd]
      have hprefix : ['p', 'i', 'd', '=', d].isPrefixOf (c :: name ++ '"' :: t) = true := by
        rw [List.cons_append, hu]
        simp
      rw [Chars.isPrefixOf_append_cons hquote, List.isPrefixOf_iff_prefix] at hprefix
      obtain ⟨v, hv⟩ := hprefix
      exact ⟨[], d, v, hd, hv.symm⟩
    · simp [betweenCommas?, Ne.symm hcomma.1]

theorem pidsFrom_user (u : User) (t : List Char) :
    pidsFrom 0 (u.chars ++ t) = u.pid :: pidsFrom 0 t := by
  have hclosing : pidsFrom 0 ('f' :: 'd' :: '=' :: (u.descriptor ++ ')' :: t)) = pidsFrom 0 t := by
    rw [pidsFrom_cons (by decide) (by decide), pidsFrom_cons (by decide) (by decide),
      pidsFrom_cons (by decide) (by decide), pidsFrom_digits u.descriptor_isNumber.2,
      pidsFrom_cons (by decide) (by decide)]
  have hopening (s : List Char) : pidsFrom 0 ('(' :: '"' :: (u.name ++ '"' :: s)) =
      pidsFrom 0 s := by
    rw [pidsFrom_cons (by decide) (by decide), pidsFrom_cons (by decide) (by decide),
      pidsFrom_name u.name_noComma u.name_noLabel]
  have hp : isDecimalDigit 'p' = false := by decide +kernel
  have hf : isDecimalDigit 'f' = false := by decide +kernel
  unfold User.chars User.label
  cases u.isLabelled with
  | true =>
    simp only [List.cons_append, List.append_assoc, if_true, List.nil_append]
    rw [hopening, pidsFrom_comma hp, pidsFrom_labelled u.pid_isNumber isDecimalDigit_comma,
      pidsFrom_comma hf, hclosing]
  | false =>
    simp only [List.cons_append, List.append_assoc, List.nil_append, Bool.false_eq_true, if_false]
    rw [hopening, pidsFrom_betweenCommas u.pid_isNumber, hclosing]

theorem pidsFrom_users (others : List User) (t : List Char) :
    pidsFrom 0 (others.flatMap (',' :: ·.chars) ++ t) = others.map (·.pid) ++ pidsFrom 0 t := by
  induction others with
  | nil => rfl
  | cons u others ih =>
    have hparen : isDecimalDigit '(' = false := by decide +kernel
    have hcomma (s : List Char) : pidsFrom 0 (',' :: (u.chars ++ s)) = pidsFrom 0 (u.chars ++ s) :=
      pidsFrom_comma hparen
    rw [List.flatMap_cons, List.cons_append, List.cons_append, List.append_assoc, hcomma,
      pidsFrom_user, ih]
    rfl

/-- The ids that are read from a column are those of the processes that it names, in order. -/
theorem pidsFrom_column (c : Column) : pidsFrom 0 c.chars = c.processes.map (·.pid) := by
  cases c with
  | users first others =>
    unfold Column.chars
    rw [pidsFrom_cons (by decide) (by decide), pidsFrom_cons (by decide) (by decide),
      pidsFrom_cons (by decide) (by decide), pidsFrom_cons (by decide) (by decide),
      pidsFrom_cons (by decide) (by decide), pidsFrom_cons (by decide) (by decide),
      pidsFrom_cons (by decide) (by decide), pidsFrom_user, pidsFrom_users,
      pidsFrom_cons (by decide) (by decide)]
    simp [pidsFrom, Column.processes]
  | other chars ne_nil notBlank noLabel noCommas => exact pidsFrom_eq_nil noLabel noCommas

end HostReach.Socket
