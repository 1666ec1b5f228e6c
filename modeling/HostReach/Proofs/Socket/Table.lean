import HostReach.Proofs.Socket.Column
import HostReach.Proofs.Text.Cut
import Mathlib.Data.List.Induction

/-!
A whole table: the lines of its sockets give the ids of the processes in their last columns, one
line after the other, until the first line whose column names none. Blank lines and white space
around a line make no difference.
-/
namespace HostReach.Socket

open Chars

theorem Column.chars_ne_nil (c : Column) : c.chars ≠ [] := by
  cases c with
  | users first others => simp [Column.chars]
  | other chars ne_nil => exact ne_nil

theorem IsNumber.notBlank {ds : List Char} (h : IsNumber ds) : ∀ d ∈ ds, isBlank d = false :=
  fun d hd => isBlank_of_isDecimalDigit (h.2 d hd)

theorem User.notBlank (u : User) : ∀ c ∈ u.chars, isBlank c = false := by
  have hlabel : ∀ c ∈ u.label, isBlank c = false := by
    unfold User.label
    cases u.isLabelled <;> simp [isBlank]
  have hopening : ∀ c ∈ ['(', '"'], isBlank c = false := by simp [isBlank]
  have hquote : ∀ c ∈ ['"', ','], isBlank c = false := by simp [isBlank]
  have hdescriptor : ∀ c ∈ [',', 'f', 'd', '='], isBlank c = false := by simp [isBlank]
  have hclosing : ∀ c ∈ [')'], isBlank c = false := by simp [isBlank]
  have hchars : u.chars = ['(', '"'] ++
      (u.name ++ (['"', ','] ++ (u.label ++ (u.pid ++ ([',', 'f', 'd', '='] ++
    (u.descriptor ++ [')'])))))) := rfl
  simp only [hchars, List.forall_mem_append]
  exact ⟨hopening, u.name_notBlank, hquote, hlabel, u.pid_isNumber.notBlank, hdescriptor,
    u.descriptor_isNumber.notBlank, hclosing⟩

theorem Column.notBlank (c : Column) : ∀ d ∈ c.chars, isBlank d = false := by
  cases c with
  | users first others =>
    have hopening : ∀ d ∈ ['u', 's', 'e', 'r', 's', ':', '('], isBlank d = false := by
      simp [isBlank]
    have hclosing : ∀ d ∈ [')'], isBlank d = false := by simp [isBlank]
    have hothers : ∀ d ∈ others.flatMap (',' :: ·.chars), isBlank d = false := by
      intro d hd
      obtain ⟨u, -, hmem⟩ := List.mem_flatMap.mp hd
      rcases List.mem_cons.mp hmem with rfl | hmem
      · decide
      · exact u.notBlank d hmem
    have hchars : (Column.users first others).chars =
      ['u', 's', 'e', 'r', 's', ':', '('] ++
        (first.chars ++ (others.flatMap (',' :: ·.chars) ++ [')'])) := rfl
    simp only [hchars, List.forall_mem_append]
    exact ⟨hopening, first.notBlank, hothers, hclosing⟩
  | other chars ne_nil notBlank => exact notBlank

def IsSpacing (w : List Char) : Prop := (∀ c ∈ w, isBlank c = true) ∧ '\n' ∉ w

instance (w : List Char) : Decidable (IsSpacing w) :=
  decidable_of_iff (w.all isBlank = true ∧ '\n' ∉ w) (by rw [List.all_eq_true, IsSpacing])

structure Line where
  columns : List Char
  gap : List Char
  last : Column
  ending : List Char
  columns_oneLine : '\n' ∉ columns
  gap_ne_nil : gap ≠ []
  gap_isSpacing : IsSpacing gap
  ending_isSpacing : IsSpacing ending

namespace Line

def body (l : Line) : List Char := l.columns ++ l.gap ++ l.last.chars

def chars (l : Line) : List Char := l.body ++ l.ending

def hasUsers (l : Line) : Bool := !l.last.processes.isEmpty

def pids (l : Line) : List (List Char) := l.last.processes.map (·.pid)

end Line

inductive Row where
  | blank (chars : List Char) (isSpacing : IsSpacing chars)
  | socket (line : Line)

namespace Row

def chars : Row → List Char
  | .blank chars _ => chars
  | .socket line => line.chars

def line? : Row → Option Line
  | .blank .. => none
  | .socket line => some line

end Row

structure Table where
  header : List Char
  rows : List Row
  header_oneLine : '\n' ∉ header
  header_notBlank : ∃ c ∈ header, isBlank c = false

namespace Table

def text (t : Table) : String :=
  String.ofList (t.header ++ (t.rows.map (·.chars)).flatMap ('\n' :: ·))

def lines (t : Table) : List Line := t.rows.filterMap Row.line?

end Table

namespace Line

variable (l : Line)

theorem trimRight_body (a : List Char) : trimRight (a ++ l.body) = a ++ l.body := by
  obtain ⟨front, c, hlast⟩ := List.eq_nil_or_concat l.last.chars |>.resolve_left l.last.chars_ne_nil
  have hc : isBlank c = false := l.last.notBlank c (by simp [hlast])
  have htext : a ++ l.body = a ++ l.columns ++ l.gap ++ front ++ [c] := by simp [body, hlast]
  rw [htext, trimRight_append_singleton _ hc]

theorem getLast?_words_body {after : List Char} (h : ∀ c ∈ after, isBlank c = true) :
    (words (l.body ++ after)).getLast? = some l.last.chars :=
  getLast?_words l.columns l.gap_ne_nil l.gap_isSpacing.1 l.last.chars_ne_nil l.last.notBlank h

theorem trim_last {header : List Char} (h : ∃ c ∈ header, isBlank c = false)
    (ls : List (List Char)) :
    trim (header ++ (ls ++ [l.chars]).flatMap ('\n' :: ·)) =
      trimLeft header ++ (ls ++ [l.body]).flatMap ('\n' :: ·) := by
  have hchars : (ls ++ [l.chars]).flatMap ('\n' :: ·) =
      ls.flatMap ('\n' :: ·) ++ ['\n'] ++ l.body ++ l.ending := by
    simp [chars]
  have hbody : (ls ++ [l.body]).flatMap ('\n' :: ·) =
      ls.flatMap ('\n' :: ·) ++ ['\n'] ++ l.body := by simp
  rw [hchars, hbody, ← List.append_assoc header, trim_append_of_blank _ l.ending_isSpacing.1, trim,
    trimLeft_append_of_notBlank h, ← List.append_assoc, trimRight_body]

theorem oneLine_body : '\n' ∉ l.body := by
  have hlast : '\n' ∉ l.last.chars := fun hmem => Bool.noConfusion (l.last.notBlank _ hmem)
  simp [body, l.columns_oneLine, l.gap_isSpacing.2, hlast]

end Line

theorem Row.oneLine (r : Row) : '\n' ∉ r.chars := by
  cases r with
  | blank chars isSpacing => exact isSpacing.2
  | socket line => simpa [Row.chars, Line.chars] using ⟨line.oneLine_body, line.ending_isSpacing.2⟩

section Lines

variable {ls : List (List Char)} {a : List Char}

theorem pidsOfLines_append_congr {as bs : List (List Char)} (h : pidsOfLines as = pidsOfLines bs) :
    pidsOfLines (ls ++ as) = pidsOfLines (ls ++ bs) := by
  induction ls with
  | nil => exact h
  | cons l ls ih => simp only [List.cons_append, pidsOfLines, ih]

theorem pidsOfLines_blank (ha : ∀ c ∈ a, isBlank c = true) :
    pidsOfLines (a :: ls) = pidsOfLines ls := by
  simp [pidsOfLines, words_of_blank ha]

theorem pidsOfLines_line (l : Line) (ha : ∀ c ∈ a, isBlank c = true) :
    pidsOfLines ((l.body ++ a) :: ls) = if l.hasUsers then l.pids ++ pidsOfLines ls else [] := by
  rw [pidsOfLines, l.getLast?_words_body ha]
  simp only
  split
  · next hnone =>
    have hprocesses : l.last.processes = [] := by simpa [pidsFrom_column] using hnone
    simp [Line.hasUsers, hprocesses]
  · next hsome =>
    have hprocesses : l.last.processes ≠ [] := by simpa [pidsFrom_column] using hsome
    simp [Line.hasUsers, hprocesses, Line.pids, pidsFrom_column]

theorem pidsOfLines_rows (rows : List Row) :
    pidsOfLines (rows.map (·.chars)) =
      ((rows.filterMap Row.line?).takeWhile Line.hasUsers).flatMap Line.pids := by
  induction rows with
  | nil => rfl
  | cons r rows ih =>
    cases r with
    | blank chars isSpacing => rw [List.map_cons, Row.chars, pidsOfLines_blank isSpacing.1, ih]; rfl
    | socket line =>
      have hline : (Row.socket line :: rows).filterMap Row.line? =
          line :: rows.filterMap Row.line? := rfl
      rw [List.map_cons, Row.chars, Line.chars,
        pidsOfLines_line line line.ending_isSpacing.1, ih, hline, List.takeWhile_cons]
      cases line.hasUsers <;> rfl

end Lines

/-- The white space that ends a table belongs to blank lines and to the ending of a line, so that
trimming it away changes nothing in what is read. -/
theorem pidsOfLines_trim {header : List Char} (honeLine : '\n' ∉ header)
    (hnotBlank : ∃ c ∈ header, isBlank c = false) (rows : List Row) :
    pidsOfLines
      ((splitAt '\n' (trim (header ++ (rows.map (·.chars)).flatMap ('\n' :: ·)))).drop 1) =
      pidsOfLines (rows.map (·.chars)) := by
  -- From the end, where the trimming takes place.
  induction rows using List.reverseRecOn with
  | nil =>
    have hnone : '\n' ∉ trim header := mt mem_of_mem_trim honeLine
    rw [List.map_nil, List.flatMap_nil, List.append_nil, splitAt_of_not_mem hnone]
    rfl
  | append_singleton rows r ih =>
    simp only [List.map_append, List.map_singleton]
    cases r with
    | blank chars isSpacing =>
      have hblank : ∀ c ∈ '\n' :: chars, isBlank c = true :=
        List.forall_mem_cons.mpr ⟨by decide, isSpacing.1⟩
      have hlast : pidsOfLines (rows.map (·.chars) ++ [chars]) =
          pidsOfLines (rows.map (·.chars) ++ []) :=
        pidsOfLines_append_congr (pidsOfLines_blank isSpacing.1)
      rw [Row.chars, List.flatMap_append, List.flatMap_singleton, ← List.append_assoc,
        trim_append_of_blank _ hblank, ih, hlast, List.append_nil]
    | socket line =>
      have hheader : '\n' ∉ trimLeft header := fun hmem =>
        honeLine ((List.dropWhile_sublist _).subset hmem)
      have hcut : ∀ l ∈ rows.map (·.chars) ++ [line.body], '\n' ∉ l := by
        rw [List.forall_mem_append, List.forall_mem_map, List.forall_mem_singleton]
        exact ⟨fun r _ => r.oneLine, line.oneLine_body⟩
      rw [Row.chars, line.trim_last hnotBlank, splitAt_flatMap hheader hcut, List.drop_one,
        List.tail_cons]
      apply pidsOfLines_append_congr
      rw [Line.chars, pidsOfLines_line line line.ending_isSpacing.1, ← List.append_nil line.body,
        pidsOfLines_line line (by simp)]

/-- The ids that are read from a table are those of the processes that its lines name, in order, up
to the first line that names none; from white space nothing is read. -/
theorem pidsOfTable_text :
    (∀ t : Table, pidsOfTable t.text =
      ((t.lines.takeWhile Line.hasUsers).flatMap Line.pids).map String.ofList) ∧
      ∀ s : String, Text.isBlank s = true → pidsOfTable s = [] := by
  constructor
  · intro t
    simp only [pidsOfTable, Table.text, String.toList_ofList]
    rw [pidsOfLines_trim t.header_oneLine t.header_notBlank, pidsOfLines_rows, Table.lines]
  · intro s h
    rw [pidsOfTable, trim_eq_nil.mpr (List.all_eq_true.mp h)]
    rfl

/-- A socket with two processes, each named in its own way, a blank line, and a socket that names
none. -/
theorem pidsOfTable_text_both_ways :
    pidsOfTable "Netid\ntcp  users:((\"a\",pid=1,fd=3),(\"b\",2,fd=4))\r\n\r\nudp *:*" =
      ["1", "2"] ∧
      Text.isBlank " \n" = true ∧ pidsOfTable " \n" = [] := by
  have hblank : Text.isBlank " \n" = true := by decide
  have hpids := pidsOfTable_text.1 {
    header := ['N', 'e', 't', 'i', 'd']
    rows :=
      [.socket ⟨['t', 'c', 'p'], [' ', ' '],
        .users
          ⟨['a'], ['1'], ['3'], true, by simp [isBlank], by decide, by decide +kernel,
            by decide +kernel, by decide +kernel⟩
          [⟨['b'], ['2'], ['4'], false, by simp [isBlank], by decide, by decide +kernel,
            by decide +kernel, by decide +kernel⟩],
        ['\r'], by decide, by decide, by decide, by decide⟩,
      .blank ['\r'] (by decide),
      .socket ⟨['u', 'd', 'p'], [' '],
        .other ['*', ':', '*'] (by decide) (by simp [isBlank]) (by decide +kernel)
          (by decide +kernel),
        [], by decide, by decide, by decide, by decide⟩]
    header_oneLine := by decide
    header_notBlank := ⟨'N', by simp, by decide⟩ }
  exact ⟨hpids, hblank, pidsOfTable_text.2 _ hblank⟩

end HostReach.Socket
