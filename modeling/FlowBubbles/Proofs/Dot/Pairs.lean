import FlowBubbles.Proofs.Dot.Tokens
import Mathlib.Algebra.Ring.Parity
import Mathlib.Data.List.Induction

/-!
# Backslash pairs

An escaped text is a row of backslash pairs and of plain characters. So the backslashes at its end
are even in number (`even_trail_escapeChars`), a character that must not stand alone has an odd
number of them in front (`odd_trail_of_isMark`), and when the pairs are read from the left
(`unescape?`) the text comes back without its carriage returns. The scan of a whole document reads a
text up to the closing quote; here there is no quote, and the text is read up to its end.
-/

namespace FlowBubbles.Dot

/-- A text with its backslash pairs read. A text that ends inside a pair has no reading. -/
def unescape? : List Char → Option (List Char)
  | [] => some []
  | [c] => if c = '\\' then none else some [c]
  | c :: x :: rest =>
    if c = '\\' then (unescape? rest).map (unescape x :: ·)
    else (unescape? (x :: rest)).map (c :: ·)

/-- The number of backslashes at the end of a text. -/
def trail (cs : List Char) : Nat := (cs.reverse.takeWhile (· == '\\')).length

/-- The characters that must not stand alone in a text of a document. -/
def isMark (c : Char) : Bool := c == '"' || c == '<' || c == '>'

variable {c x : Char} {cs before after : List Char}

/-! ## One character -/

/-- A character becomes a pair that stands for it, or nothing if it is a carriage return, or it stays
as it is. -/
theorem escapeChar_cases (c : Char) :
    (∃ x, escapeChar c = ['\\', x] ∧ unescape x = c ∧ c ≠ '\r') ∨
      (escapeChar c = [] ∧ c = '\r') ∨
      (escapeChar c = [c] ∧ c ≠ '\\' ∧ isMark c = false ∧ c ≠ '\r') := by
  by_cases hmark : c = '\\' ∨ c = '"' ∨ c = '<' ∨ c = '>'
  · refine .inl ⟨c, if_pos hmark, ?_⟩
    rcases hmark with rfl | rfl | rfl | rfl <;> decide
  by_cases hline : c = '\n'
  · subst hline
    exact .inl ⟨'n', by decide⟩
  by_cases hreturn : c = '\r'
  · subst hreturn
    exact .inr (.inl (by decide))
  · refine .inr (.inr ?_)
    simp_all [escapeChar, isMark]

theorem return_notMem_escapeChar (c : Char) : '\r' ∉ escapeChar c := by
  unfold escapeChar
  split_ifs with hmark hline hreturn
  · rcases hmark with rfl | rfl | rfl | rfl <;> decide
  · decide
  · exact List.not_mem_nil
  · simpa using Ne.symm hreturn

theorem return_notMem_escapeChars (cs : List Char) : '\r' ∉ escapeChars cs := by
  rw [escapeChars_eq_flatMap, List.mem_flatMap]
  rintro ⟨c, -, h⟩
  exact return_notMem_escapeChar c h

theorem escapeChars_append (cs cs' : List Char) :
    escapeChars (cs ++ cs') = escapeChars cs ++ escapeChars cs' := by
  rw [escapeChars_eq_flatMap, escapeChars_eq_flatMap, escapeChars_eq_flatMap, List.flatMap_append]

theorem escapeChars_singleton (c : Char) : escapeChars [c] = escapeChar c := by
  rw [escapeChars_eq_flatMap, List.flatMap_singleton]

/-! ## Runs of backslashes -/

theorem trail_concat_backslash (cs : List Char) : trail (cs ++ ['\\']) = trail cs + 1 := by
  simp [trail]

theorem trail_concat_of_ne (h : c ≠ '\\') (cs : List Char) : trail (cs ++ [c]) = 0 := by
  simp [trail, h]

/-- After a pair the number of backslashes is as even or odd as before. -/
theorem even_trail_pair (h : Even (trail cs)) (x : Char) : Even (trail (cs ++ ['\\', x])) := by
  rw [← List.singleton_append, ← List.append_assoc]
  by_cases hx : x = '\\'
  · rw [hx, trail_concat_backslash, trail_concat_backslash]
    exact (h.add_one).add_one
  · rw [trail_concat_of_ne hx]
    exact Even.zero

/-- An escaped text ends with an even number of backslashes. -/
theorem even_trail_escapeChars (cs : List Char) : Even (trail (escapeChars cs)) := by
  induction cs using List.reverseRecOn with
  | nil => exact Even.zero
  | append_singleton cs c ih =>
    rw [escapeChars_append, escapeChars_singleton]
    rcases escapeChar_cases c with ⟨x, hpair, -⟩ | ⟨hnone, -⟩ | ⟨hplain, hne, -⟩
    · rw [hpair]
      exact even_trail_pair ih x
    · rw [hnone, List.append_nil]
      exact ih
    · rw [hplain, trail_concat_of_ne hne]
      exact Even.zero

/-- What a character becomes holds a character that must not stand alone behind a backslash only. -/
theorem eq_of_escapeChar_eq_append {d : Char} (h : escapeChar d = before ++ c :: after)
    (hc : isMark c) : before = ['\\'] := by
  have hmem : ∀ cs, escapeChar d = cs → c ∈ cs := fun cs hcs => by
    rw [← hcs, h]
    simp
  rcases escapeChar_cases d with ⟨x, hpair, -⟩ | ⟨hnone, -⟩ | ⟨hplain, -, hd, -⟩
  · rw [hpair] at h
    rcases before with _ | ⟨b, _ | ⟨b', before⟩⟩
    · obtain rfl := (List.cons.inj h).1
      cases hc
    · rw [(List.cons.inj h).1]
    · simp at h
  · cases hmem _ hnone
  · obtain rfl := List.mem_singleton.1 (hmem _ hplain)
    rw [hd] at hc
    cases hc

/-- Before a character that must not stand alone there is an odd number of backslashes. -/
theorem odd_trail_of_isMark (hsplit : escapeChars cs = before ++ c :: after) (hc : isMark c) :
    Odd (trail before) := by
  induction cs using List.reverseRecOn generalizing after with
  | nil => simp [escapeChars_eq_flatMap] at hsplit
  | append_singleton cs d ih =>
    rw [escapeChars_append, escapeChars_singleton] at hsplit
    have hlast : ∀ q, before = escapeChars cs ++ q → escapeChar d = q ++ c :: after →
        Odd (trail before) := fun q hbefore hchar => by
      rw [hbefore, eq_of_escapeChar_eq_append hchar hc, trail_concat_backslash]
      exact (even_trail_escapeChars cs).add_one
    rcases List.append_eq_append_iff.1 hsplit with ⟨q, hbefore, hchar⟩ | ⟨q, hcs, hrest⟩
    · exact hlast q hbefore hchar
    · -- the character is the first one of the last part, or it lies in front of it
      cases q with
      | nil => exact hlast [] (by simpa using hcs.symm) hrest.symm
      | cons c' q =>
        obtain ⟨rfl, -⟩ := List.cons.inj hrest
        exact ih hcs

/-! ## Reading the pairs -/

theorem unescape?_pair (x : Char) (rest : List Char) :
    unescape? ('\\' :: x :: rest) = (unescape? rest).map (unescape x :: ·) := by
  rw [unescape?, if_pos rfl]

theorem unescape?_cons (h : c ≠ '\\') (rest : List Char) :
    unescape? (c :: rest) = (unescape? rest).map (c :: ·) := by
  cases rest with
  | nil => simp [unescape?, h]
  | cons x rest => rw [unescape?, if_neg h]

/-- The pairs of an escaped text stand for its characters other than carriage returns. -/
theorem unescape?_escapeChars (cs : List Char) :
    unescape? (escapeChars cs) = some (cs.filter (· ≠ '\r')) := by
  rw [escapeChars_eq_flatMap]
  induction cs with
  | nil => rfl
  | cons c cs ih =>
    rw [List.flatMap_cons]
    rcases escapeChar_cases c with ⟨x, hpair, hx, hne⟩ | ⟨hnone, hreturn⟩ | ⟨hplain, hback, -, hne⟩
    · rw [hpair, List.cons_append, List.cons_append, List.nil_append, unescape?_pair, ih, hx,
        List.filter_cons_of_pos (by simpa using hne)]
      rfl
    · rw [hnone, List.nil_append, ih, List.filter_cons_of_neg (by simpa using hreturn)]
    · rw [hplain, List.singleton_append, unescape?_cons hback, ih,
        List.filter_cons_of_pos (by simpa using hne)]
      rfl

theorem toList_escape (s : String) : (escape s).toList = escapeChars s.toList :=
  String.toList_ofList

/-- Texts that are escaped alike differ in carriage returns at most. -/
theorem escape_eq_escape_iff {s t : String} :
    escape s = escape t ↔ withoutReturns s = withoutReturns t := by
  constructor
  · intro h
    have hread := congrArg (fun u : String => unescape? u.toList) h
    simp only [toList_escape, unescape?_escapeChars, Option.some.injEq] at hread
    rw [withoutReturns, hread, withoutReturns]
  · intro h
    rw [← escape_withoutReturns s, h, escape_withoutReturns]

theorem withoutReturns_of_notMem {s : String} (h : '\r' ∉ s.toList) : withoutReturns s = s := by
  have hfilter : s.toList.filter (· ≠ '\r') = s.toList :=
    List.filter_eq_self.2 fun c hc => by
      have hne : c ≠ '\r' := fun heq => h (heq ▸ hc)
      simpa using hne
  rw [withoutReturns, hfilter, String.ofList_toList]

/-- The replacements of a text, one after the other, come to one substitution, character by
character. The result has neither line feeds nor carriage returns. An odd number of backslashes
stands in front of each quote and each angle bracket, and an even number at the end. The pairs that
begin with a backslash can be read, and give back the text without its carriage returns, so that
texts without carriage returns are escaped differently if they differ. -/
theorem escape_invertible (s t : String) :
    (escape s).toList = s.toList.flatMap escapeChar ∧
      escape (s ++ t) = escape s ++ escape t ∧
      ('\n' ∉ (escape s).toList ∧ '\r' ∉ (escape s).toList) ∧
      (∀ before c after, (escape s).toList = before ++ c :: after → isMark c →
        Odd (trail before)) ∧
      Even (trail (escape s).toList) ∧
      unescape? (escape s).toList = some (withoutReturns s).toList ∧
      (escape s = escape t ↔ withoutReturns s = withoutReturns t) ∧
      ('\r' ∉ s.toList → '\r' ∉ t.toList → escape s = escape t → s = t) := by
  rw [toList_escape]
  refine ⟨escapeChars_eq_flatMap _, ?_, ⟨newline_notMem_escapeChars _, return_notMem_escapeChars _⟩,
    fun before c after => odd_trail_of_isMark, even_trail_escapeChars _, ?_, escape_eq_escape_iff,
    fun hs ht h => ?_⟩
  · rw [escape, String.toList_append, escapeChars_append, String.ofList_append]
    rfl
  · rw [unescape?_escapeChars, toList_withoutReturns]
  · rw [← withoutReturns_of_notMem hs, ← withoutReturns_of_notMem ht]
    exact escape_eq_escape_iff.1 h

end FlowBubbles.Dot
