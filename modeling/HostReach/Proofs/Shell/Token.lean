import HostReach.Proofs.Shell.Word
import HostReach.Shell.Token

/-!
The reader of tokens on text in which nothing has a meaning but separators and backslashes: it reads
the words that splitting gives, one after the other, up to the end.
-/
namespace HostReach.Shell

def isLiteral (c : Char) : Bool :=
  !isSeparator c && !isOperatorChar c && !"\\'\x22$\x60#".toList.contains c

/-- Text of one line without quotes, expansions, operators and comments. -/
inductive IsSimple : List Char → Prop where
  | ended : IsSimple []
  | literal {c : Char} (hc : isLiteral c = true) {t : List Char} (ht : IsSimple t) :
      IsSimple (c :: t)
  | gap {c : Char} (hc : c = ' ' ∨ c = '\t') {t : List Char} (ht : IsSimple t) : IsSimple (c :: t)
  | quoted {c : Char} (hc : c ≠ '\n') {t : List Char} (ht : IsSimple t) : IsSimple ('\\' :: c :: t)

structure LiteralChar (c : Char) : Prop where
  not_separator : isSeparator c = false
  not_operator : isOperatorChar c = false
  ne_backslash : c ≠ '\\'
  ne_quote : c ≠ '\x27'
  ne_doubleQuote : c ≠ '\x22'
  ne_dollar : c ≠ '$'
  ne_backquote : c ≠ '\x60'
  ne_hash : c ≠ '#'

theorem literalChar_of_isLiteral {c : Char} (h : isLiteral c = true) : LiteralChar c := by
  simp [isLiteral] at h
  obtain ⟨⟨hseparator, hoperator⟩, h⟩ := h
  exact ⟨hseparator, hoperator, by grind, by grind, by grind, by grind, by grind, by grind⟩

theorem isSimple_of_forall {t : List Char} (h : ∀ c ∈ t, isLiteral c = true ∨ c = ' ') :
    IsSimple t := by
  induction t with
  | nil => exact .ended
  | cons c t ih =>
    rw [List.forall_mem_cons] at h
    obtain hc | hc := h.1
    · exact .literal hc (ih h.2)
    · exact .gap (.inl hc) (ih h.2)

theorem IsSimple.append {a b : List Char} (ha : IsSimple a) (hb : IsSimple b) :
    IsSimple (a ++ b) := by
  induction ha with
  | ended => exact hb
  | literal hc _ ih => exact .literal hc ih
  | gap hc _ ih => exact .gap hc ih
  | quoted hc _ ih => exact .quoted hc ih

def IsFixed (w : List Part) : Prop := ∀ p ∈ w, ∃ t quoted, p = .text t quoted

def heldText (acc : List Part) : List Char :=
  acc.flatMap fun
    | .text t _ => t
    | _ => []

variable {acc : List Part}

theorem heldText_pushText (c : Char) (quoted : Bool) (acc : List Part) :
    heldText (pushText [c] quoted acc) = c :: heldText acc := by
  unfold pushText heldText
  split
  · split <;> rfl
  · rfl

theorem IsFixed.pushText (h : IsFixed acc) (t : List Char)
    (quoted : Bool) : IsFixed (pushText t quoted acc) := by
  unfold Shell.pushText
  split
  · next u q ps =>
    have hps : IsFixed ps := fun p hp => h p (List.mem_cons_of_mem _ hp)
    split
    · exact List.forall_mem_cons.mpr ⟨⟨_, _, rfl⟩, hps⟩
    · exact List.forall_mem_cons.mpr ⟨⟨_, _, rfl⟩, h⟩
  · exact List.forall_mem_cons.mpr ⟨⟨_, _, rfl⟩, h⟩

theorem IsFixed.wordOf (h : IsFixed acc) : IsFixed (wordOf acc) := by
  intro p hp
  obtain ⟨q, hq, rfl⟩ := List.mem_map.mp hp
  obtain ⟨t, quoted, rfl⟩ := h q (List.mem_reverse.mp hq)
  exact ⟨_, _, rfl⟩

theorem plainText_wordOf (acc : List Part) : plainText (wordOf acc) = (heldText acc).reverse := by
  induction acc with
  | nil => rfl
  | cons p acc ih =>
    have hlast : wordOf (p :: acc) = wordOf acc ++ wordOf [p] := by simp [wordOf]
    have hpart : plainText (wordOf [p]) = (heldText [p]).reverse := by
      cases p <;> simp [wordOf, plainText, heldText]
    have happend (a b : Word) : plainText (a ++ b) = plainText a ++ plainText b :=
      List.flatMap_append
    have hheld : heldText (p :: acc) = heldText [p] ++ heldText acc := by simp [heldText]
    rw [hlast, happend, ih, hpart, hheld, List.reverse_append]

variable (commands : Reader Command) {fuel : Nat} {s : Source} {c : Char} {t : List Char}

theorem run_skip {n : Nat} (h : (s.rest.take n).count '\n' = 0) :
    (skip n).run s = .ok ((), { s with rest := s.rest.drop n }) := by
  unfold skip
  rw [StateT.run_modify, h]
  rfl

theorem run_readParts_literal (hc : isLiteral c = true) (hs : s.rest = c :: t) :
    (readParts commands (fuel + 1) .bare acc).run s =
      (readParts commands fuel .bare (pushText [c] false acc)).run { s with rest := t } := by
  obtain ⟨hseparator, hoperator, hbackslash, hquote, hdoubleQuote, hdollar, hbackquote, -⟩ :=
    literalChar_of_isLiteral hc
  have hending : Around.ending? .bare (c :: t) = none := by
    simp [Around.ending?, hseparator, hoperator]
  have hline : c ≠ '\n' := by
    rintro rfl
    cases hseparator
  have hskip := run_skip (s := s) (n := 1) (by simp [hs, hline])
  rw [readParts]
  simp only [StateT.run_bind, StateT.run_get, pure_bind, hs, hending]
  split
  -- the patterns before the last are of characters that are not literal
  case h_8 =>
    rw [StateT.run_bind, hskip, hs]
    rfl
  all_goals contradiction

theorem run_readParts_quoted (hc : c ≠ '\n') (hs : s.rest = '\\' :: c :: t) :
    (readParts commands (fuel + 1) .bare acc).run s =
      (readParts commands fuel .bare (pushText [c] true acc)).run { s with rest := t } := by
  have hending : Around.ending? .bare ('\\' :: c :: t) = none := rfl
  have hskip := run_skip (s := s) (n := 2) (by simp [hs, hc])
  rw [readParts]
  simp only [StateT.run_bind, StateT.run_get, pure_bind, hs, hending]
  simp only [Around.isQuoting, Bool.not_false, Bool.true_or, if_true]
  rw [StateT.run_bind, hskip, hs]
  rfl

theorem run_readParts_gap (hc : isSeparator c = true) (hs : s.rest = c :: t) :
    (readParts commands (fuel + 1) .bare acc).run s = .ok (wordOf acc, s) := by
  have hending : Around.ending? .bare (c :: t) = some 0 := by simp [Around.ending?, hc]
  have hskip := run_skip (s := s) (n := 0) rfl
  rw [readParts]
  simp only [StateT.run_bind, StateT.run_get, pure_bind, hs, hending, hskip]
  simp only [← hs]
  rfl

theorem run_readParts_ended (hs : s.rest = []) :
    (readParts commands (fuel + 1) .bare acc).run s = .ok (wordOf acc, s) := by
  rw [readParts]
  simp only [StateT.run_bind, StateT.run_get, pure_bind, hs]
  rfl

theorem run_readToken_gap (hc : c = ' ' ∨ c = '\t') (hs : s.rest = c :: t) :
    (readToken commands (fuel + 1) .bare).run s =
      (readToken commands fuel .bare).run { s with rest := t } := by
  have hskip := run_skip (s := s) (n := 1) (by rcases hc with rfl | rfl <;> simp [hs])
  rw [readToken]
  simp only [StateT.run_bind, StateT.run_get, pure_bind, hs]
  obtain rfl | rfl := hc
  all_goals
    change ((skip 1 >>= fun _ => readToken commands fuel .bare : Reader Token)).run s = _
    rw [StateT.run_bind, hskip, hs]
    rfl

theorem run_readToken_ended (hs : s.rest = []) :
    (readToken commands (fuel + 1) .bare).run s = .ok (.ended, s) := by
  rw [readToken]
  simp only [StateT.run_bind, StateT.run_get, pure_bind, hs]
  rfl

structure BeginsWord (c : Char) (t : List Char) : Prop where
  not_separator : isSeparator c = false
  not_operator : isOperatorChar c = false
  ne_hash : c ≠ '#'
  not_joined : c = '\\' → t.head? ≠ some '\n'

theorem beginsWord_literal (hc : isLiteral c = true) (t : List Char) : BeginsWord c t :=
  have h := literalChar_of_isLiteral hc
  ⟨h.not_separator, h.not_operator, h.ne_hash, fun hbackslash => absurd hbackslash h.ne_backslash⟩

theorem beginsWord_quoted (hc : c ≠ '\n') (t : List Char) : BeginsWord '\\' (c :: t) :=
  ⟨rfl, rfl, by decide, fun _ hhead => hc (Option.some.inj hhead)⟩

theorem run_readToken_word (hs : s.rest = c :: t) (h : BeginsWord c t) {w : Word} {s' : Source}
    (hparts : (readParts commands s.bound .bare []).run s = .ok (w, s'))
    (hless : s'.rest.head? ≠ some '<') (hgreater : s'.rest.head? ≠ some '>') :
    (readToken commands (fuel + 1) .bare).run s = .ok (.word w, s') := by
  obtain ⟨hseparator, hoperator, hhash, hjoined⟩ := h
  have hline : c ≠ '\n' := by
    rintro rfl
    cases hseparator
  rw [readToken]
  simp only [StateT.run_bind, StateT.run_get, pure_bind, hs]
  split
  case h_1 => contradiction
  case h_2 heq =>
    cases heq
    contradiction
  case h_3 heq =>
    cases heq
    exact absurd rfl (hjoined rfl)
  case h_4 heq =>
    cases heq
    contradiction
  case h_5 heq =>
    cases heq
    rw [if_neg (by simp [hseparator]), if_neg (by simp [hoperator])]
    rw [StateT.run_bind, StateT.run_get, pure_bind, StateT.run_bind, hparts]
    change StateT.run _ s' = _
    dsimp only
    split
    · rw [if_neg (by simp [hless, hgreater])]
      rfl
    · rfl

/-- A word of simple text, cut off at its front where one may have begun, and what is left. -/
structure CutsOff (word : Option (List Char)) (t : List Char) (w : Word)
    (rest : List Char) : Prop where
  splitFrom_eq : splitFrom word t = plainText w :: splitFrom none rest
  isFixed : IsFixed w
  isSimple : IsSimple rest
  length_le : rest.length ≤ t.length

theorem CutsOff.of_splitFrom_eq {word word' : Option (List Char)} {t t' rest : List Char} {w : Word}
    (h : CutsOff word t w rest) (hsplit : splitFrom word' t' = splitFrom word t)
    (hle : t.length ≤ t'.length) :
    CutsOff word' t' w rest :=
  ⟨hsplit.trans h.splitFrom_eq, h.isFixed, h.isSimple, Nat.le_trans h.length_le hle⟩

theorem splitFrom_literal {word : Option (List Char)} (hc : isLiteral c = true) (t : List Char) :
    splitFrom word (c :: t) = splitFrom (some (c :: word.getD [])) t := by
  have h := literalChar_of_isLiteral hc
  rw [splitFrom_cons h.ne_backslash, if_neg (by simp [h.not_separator])]

theorem splitFrom_gap {word : Option (List Char)} (hc : c = ' ' ∨ c = '\t') (t : List Char) :
    splitFrom word (c :: t) = (word.map List.reverse).toList ++ splitFrom none t := by
  obtain rfl | rfl := hc <;> rfl

theorem exists_run_readParts (ht : IsSimple t) (hs : s.rest = t) (hacc : IsFixed acc)
    (hfuel : t.length < fuel) :
    ∃ w rest, (readParts commands fuel .bare acc).run s = .ok (w, { s with rest }) ∧
      CutsOff (some (heldText acc)) t w rest := by
  -- What follows goes on with the word that is held, or the word is complete.
  induction ht generalizing s fuel acc with
  | ended =>
    obtain ⟨fuel, rfl⟩ := Nat.exists_eq_add_one_of_ne_zero (Nat.ne_zero_of_lt hfuel)
    refine ⟨wordOf acc, [], ?_, ?_, hacc.wordOf, .ended, Nat.le_refl _⟩
    · rw [run_readParts_ended commands hs, ← hs]
    · rw [plainText_wordOf]
      rfl
  | @literal c hc t _ ih =>
    obtain ⟨fuel, rfl⟩ := Nat.exists_eq_add_one_of_ne_zero (Nat.ne_zero_of_lt hfuel)
    obtain ⟨w, rest, hrun, hcut⟩ :=
      ih (s := { s with rest := t }) rfl (hacc.pushText [c] false) (Nat.lt_of_succ_lt_succ hfuel)
    rw [heldText_pushText] at hcut
    refine ⟨w, rest, ?_, hcut.of_splitFrom_eq (splitFrom_literal hc t) (by simp)⟩
    rw [run_readParts_literal commands hc hs, hrun]
  | @gap c hc t ht _ =>
    obtain ⟨fuel, rfl⟩ := Nat.exists_eq_add_one_of_ne_zero (Nat.ne_zero_of_lt hfuel)
    have hseparator : isSeparator c = true := by rcases hc with rfl | rfl <;> rfl
    refine ⟨wordOf acc, c :: t, ?_, ?_, hacc.wordOf, .gap hc ht, Nat.le_refl _⟩
    · rw [run_readParts_gap commands hseparator hs, ← hs]
    · rw [splitFrom_gap hc, splitFrom_gap hc, plainText_wordOf]
      rfl
  | @quoted c hc t _ ih =>
    obtain ⟨fuel, rfl⟩ := Nat.exists_eq_add_one_of_ne_zero (Nat.ne_zero_of_lt hfuel)
    have htail : t.length < fuel := by
      simp only [List.length_cons] at hfuel
      omega
    obtain ⟨w, rest, hrun, hcut⟩ :=
      ih (s := { s with rest := t }) rfl (hacc.pushText [c] true) htail
    rw [heldText_pushText] at hcut
    refine ⟨w, rest, ?_, hcut.of_splitFrom_eq (by rw [splitFrom]; rfl) (by simp; omega)⟩
    rw [run_readParts_quoted commands hc hs, hrun]

theorem IsSimple.head?_ne (h : IsSimple t) (hc : isOperatorChar c = true) : t.head? ≠ some c := by
  intro hhead
  cases h with
  | ended => cases hhead
  | literal hd _ =>
    cases hhead
    simp [(literalChar_of_isLiteral hd).not_operator] at hc
  | gap hd _ =>
    cases hhead
    obtain rfl | rfl := hd <;> cases hc
  | quoted _ _ =>
    cases hhead
    cases hc

theorem BeginsWord.splitFrom_eq (h : BeginsWord c t) :
    splitFrom none (c :: t) = splitFrom (some []) (c :: t) := by
  by_cases hc : c = '\\'
  · subst hc
    cases t <;> rfl
  · rw [splitFrom_cons hc, splitFrom_cons hc, if_neg (by simp [h.not_separator]),
      if_neg (by simp [h.not_separator])]
    rfl

theorem BeginsWord.exists_run_readToken (h : BeginsWord c t) (ht : IsSimple (c :: t))
    (hs : s.rest = c :: t) (hbound : (c :: t).length < s.bound) (hfuel : (c :: t).length < fuel) :
    ∃ w rest, (readToken commands fuel .bare).run s = .ok (.word w, { s with rest }) ∧
      CutsOff none (c :: t) w rest := by
  obtain ⟨fuel, rfl⟩ := Nat.exists_eq_add_one_of_ne_zero (Nat.ne_zero_of_lt hfuel)
  have hnone : IsFixed [] := by simp [IsFixed]
  obtain ⟨w, rest, hparts, hcut⟩ := exists_run_readParts commands ht hs hnone hbound
  refine ⟨w, rest, ?_, hcut.of_splitFrom_eq h.splitFrom_eq (Nat.le_refl _)⟩
  exact run_readToken_word commands hs h hparts (hcut.isSimple.head?_ne rfl)
    (hcut.isSimple.head?_ne rfl)

theorem exists_run_readToken (ht : IsSimple t) (hs : s.rest = t) (hbound : t.length < s.bound)
    (hfuel : t.length < fuel) :
    ((readToken commands fuel .bare).run s = .ok (.ended, { s with rest := [] }) ∧
      splitFrom none t = []) ∨
      ∃ w rest, (readToken commands fuel .bare).run s = .ok (.word w, { s with rest }) ∧
      CutsOff none t w rest := by
  -- A separator is left out, and where there is none a word begins.
  induction ht generalizing s fuel with
  | ended =>
    obtain ⟨fuel, rfl⟩ := Nat.exists_eq_add_one_of_ne_zero (Nat.ne_zero_of_lt hfuel)
    refine .inl ⟨?_, rfl⟩
    rw [run_readToken_ended commands hs, ← hs]
  | @literal c hc t ht _ =>
    exact .inr ((beginsWord_literal hc t).exists_run_readToken commands
      (.literal hc ht) hs hbound hfuel)
  | @gap c hc t _ ih =>
    obtain ⟨fuel, rfl⟩ := Nat.exists_eq_add_one_of_ne_zero (Nat.ne_zero_of_lt hfuel)
    have hsplit : splitFrom none (c :: t) = splitFrom none t := splitFrom_gap hc t
    rw [run_readToken_gap commands hc hs, hsplit]
    obtain hended | ⟨w, rest, hrun, hcut⟩ :=
      ih (s := { s with rest := t }) rfl (Nat.lt_of_succ_lt hbound) (Nat.lt_of_succ_lt_succ hfuel)
    · exact .inl hended
    · exact .inr ⟨w, rest, hrun, hcut.of_splitFrom_eq hsplit (by simp)⟩
  | @quoted c hc t ht _ =>
    exact .inr ((beginsWord_quoted hc t).exists_run_readToken commands
      (.quoted hc ht) hs hbound hfuel)

/-- The tokens that are read up to the end of the text are these words. -/
inductive ReadsWords : Source → List Word → Prop where
  | ended {s s' : Source} (h : (readToken commands s.bound .bare).run s = .ok (.ended, s')) :
      ReadsWords s []
  | word {s s' : Source} {w : Word} {ws : List Word}
      (h : (readToken commands s.bound .bare).run s = .ok (.word w, s')) (hws : ReadsWords s' ws) :
        ReadsWords s (w :: ws)

theorem exists_readsWords (hs : IsSimple s.rest) (hbound : s.rest.length < s.bound) :
    ∃ ws, ReadsWords commands s ws ∧ (∀ w ∈ ws, IsFixed w) ∧
    ws.map plainText = splitFrom none s.rest := by
  -- By induction on the words that splitting gives: a word takes several characters of the text.
  generalize hwords : splitFrom none s.rest = words
  induction words generalizing s with
  | nil =>
    obtain ⟨hrun, -⟩ | ⟨w, rest, -, hcut⟩ := exists_run_readToken commands hs rfl hbound hbound
    · exact ⟨[], .ended hrun, by simp, rfl⟩
    · rw [hcut.splitFrom_eq] at hwords
      cases hwords
  | cons word words ih =>
    obtain ⟨-, hnone⟩ | ⟨w, rest, hrun, hcut⟩ := exists_run_readToken commands hs rfl hbound hbound
    · rw [hnone] at hwords
      cases hwords
    · rw [hcut.splitFrom_eq] at hwords
      obtain ⟨hword, hrest⟩ := List.cons.inj hwords
      obtain ⟨ws, hws, hfixed, htexts⟩ :=
        ih (s := { s with rest }) hcut.isSimple (Nat.lt_of_le_of_lt hcut.length_le hbound) hrest
      refine ⟨w :: ws, .word hrun hws, List.forall_mem_cons.mpr ⟨hcut.isFixed, hfixed⟩, ?_⟩
      rw [List.map_cons, hword, htexts]

end HostReach.Shell
