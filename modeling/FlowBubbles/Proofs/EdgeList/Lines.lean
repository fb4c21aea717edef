import FlowBubbles.EdgeList
import FlowBubbles.Proofs.Text.Words
import Mathlib.Data.List.Forall2

/-!
# Lines of an edge list

A line ends at a line feed, which may have a carriage return in front (`lineContents`). A carriage
return is a blank, so an edge list may just as well be cut at its line feeds alone, and then the end
of a text may count as one more line that is empty: the words are the same (`map_wordsOf_lines`).
-/

namespace FlowBubbles.EdgeList

open Text

variable {c : Char} {cs l rest : List Char} {row : List String}

/-! ## The words of a line -/

/-- A line up to its comment. -/
def uncomment (line : List Char) : List Char := line.takeWhile (· != '#')

theorem wordsOf_eq (line : List Char) : wordsOf line = (words (uncomment line)).map String.ofList :=
  rfl

theorem uncomment_of_notMem (h : '#' ∉ l) : uncomment l = l :=
  List.takeWhile_eq_self_iff.2 fun c hc => by
    have hne : c ≠ '#' := fun heq => h (heq ▸ hc)
    simpa using hne

theorem uncomment_append_of_notMem (h : '#' ∉ l) (rest : List Char) :
    uncomment (l ++ rest) = l ++ uncomment rest :=
  List.takeWhile_append_of_pos fun c hc => by
    have hne : c ≠ '#' := fun heq => h (heq ▸ hc)
    simpa using hne

/-- Nothing behind a comment mark counts. -/
theorem uncomment_append_of_mem (h : '#' ∈ l) (rest : List Char) :
    uncomment (l ++ rest) = uncomment l := by
  obtain ⟨before, after, rfl, hbefore⟩ := List.eq_append_cons_of_mem h
  rw [List.append_assoc, uncomment_append_of_notMem hbefore, uncomment_append_of_notMem hbefore]
  rfl

/-- A comment at the end of a line makes no difference to its words. -/
theorem wordsOf_append_comment (l note : List Char) : wordsOf (l ++ '#' :: note) = wordsOf l := by
  by_cases h : '#' ∈ l
  · rw [wordsOf_eq, uncomment_append_of_mem h, wordsOf_eq]
  · have hmark : uncomment ('#' :: note) = [] := rfl
    rw [wordsOf_eq, uncomment_append_of_notMem h, hmark, List.append_nil, wordsOf_eq,
      uncomment_of_notMem h]

/-- A blank in front of a word or behind one makes no difference to the words of a line. -/
theorem wordsOf_insert_blank (hc : isBlank c) (h : (∀ x, l.getLast? = some x → isBlank x) ∨
    ∀ x, rest.head? = some x → isBlank x ∨ x = '#') :
    wordsOf (l ++ c :: rest) = wordsOf (l ++ rest) := by
  by_cases hmark : '#' ∈ l
  · rw [wordsOf_eq, uncomment_append_of_mem hmark, wordsOf_eq, uncomment_append_of_mem hmark]
  · have hne : '#' ∉ [c] := by
      rw [List.mem_singleton]
      rintro rfl
      cases hc
    have hcons : uncomment (c :: rest) = c :: uncomment rest := uncomment_append_of_notMem hne rest
    rw [wordsOf_eq, uncomment_append_of_notMem hmark, wordsOf_eq, uncomment_append_of_notMem hmark,
      hcons, words_insert_blank hc (h.imp_right fun hrest x hx => ?_)]
    cases rest with
    | nil => cases hx
    | cons y rest =>
      rw [uncomment, List.takeWhile_cons] at hx
      split at hx
      · rename_i hy
        obtain rfl : y = x := by simpa using hx
        exact (hrest y rfl).resolve_right (by simpa using hy)
      · cases hx

theorem wordsOf_append_carriageReturn (l : List Char) : wordsOf (l ++ ['\r']) = wordsOf l := by
  rw [wordsOf_insert_blank (by decide) (.inr (by simp)), List.append_nil]

/-- Whether a line has the words `row` in front of its comment, if it has one. -/
def HasWords (line : List Char) (row : List String) : Prop :=
  ∃ content comment, line = content ++ comment ∧ '#' ∉ content ∧
    (comment = [] ∨ ∃ note, comment = '#' :: note) ∧ Spaced content (row.map String.toList)

/-- The words of a line are those that stand in it. -/
theorem hasWords_iff : HasWords l row ↔ wordsOf l = row := by
  constructor
  · rintro ⟨content, comment, rfl, hcontent, hcomment, hspaced⟩
    have hrest : uncomment comment = [] := by
      rcases hcomment with rfl | ⟨note, rfl⟩ <;> rfl
    rw [wordsOf_eq, uncomment_append_of_notMem hcontent, hrest, List.append_nil,
      hspaced.words_eq, List.map_map]
    simp
  · rintro rfl
    refine ⟨uncomment l, l.dropWhile (· != '#'), List.takeWhile_append_dropWhile.symm,
      fun hmem => ?_, ?_, spaced_iff.2 ?_⟩
    · simpa using List.mem_takeWhile_imp hmem
    · cases hdrop : l.dropWhile (· != '#') with
      | nil => exact .inl rfl
      | cons x note =>
        have hhead := List.head?_dropWhile_not (· != '#') l
        rw [hdrop] at hhead
        obtain rfl : x = '#' := by simpa using hhead
        exact .inr ⟨note, rfl⟩
    · rw [wordsOf_eq, List.map_map]
      simp

/-! ## The lines of a text -/

/-- The lines of a text without their ends. A line ends at a line feed, or at a carriage return with
a line feed behind it; the last line needs no end. -/
def lineContents : List Char → List (List Char)
  | [] => []
  | '\r' :: '\n' :: cs => [] :: lineContents cs
  | '\n' :: cs => [] :: lineContents cs
  | c :: cs =>
    match lineContents cs with
    | [] => [[c]]
    | line :: lines => (c :: line) :: lines

theorem lines_append_newline (cs rest : List Char) :
    lines (cs ++ '\n' :: rest) = lines cs ++ lines rest :=
  pieces_append_cons rfl cs rest

theorem lines_cons_newline (cs : List Char) : lines ('\n' :: cs) = [] :: lines cs :=
  pieces_cons rfl cs

/-- A text without a line feed is one line. -/
theorem lines_of_notMem (h : '\n' ∉ l) : lines l = [l] :=
  pieces_of_forall fun _ hc => beq_false_of_ne fun heq => h (heq ▸ hc)

theorem newline_notMem_of_mem_lines (h : l ∈ lines cs) : '\n' ∉ l := fun hmem => by
  simpa using eq_false_of_mem_pieces h '\n' hmem

theorem lines_cons_of_ne (h : c ≠ '\n') (cs : List Char) :
    ∃ line rest, lines cs = line :: rest ∧ lines (c :: cs) = (c :: line) :: rest := by
  obtain ⟨line, rest, hcs⟩ := List.exists_cons_of_ne_nil (pieces_ne_nil (· == '\n') cs)
  refine ⟨line, rest, hcs, ?_⟩
  have hc : (c == '\n') = false := beq_false_of_ne h
  rw [pieces_eq_splitOnP] at hcs
  rw [lines, pieces_eq_splitOnP, List.splitOnP_cons_eq_if_modifyHead, hc, hcs]
  rfl

theorem lineContents_eq_nil_iff : lineContents cs = [] ↔ cs = [] := by
  fun_cases lineContents cs <;> simp_all

theorem newline_notMem (h : l ∈ lineContents cs) : '\n' ∉ l := by
  fun_induction lineContents cs generalizing l with
  | case1 => cases h
  | case2 cs ih | case3 cs ih =>
    rcases List.mem_cons.1 h with rfl | h
    · exact List.not_mem_nil
    · exact ih h
  | case4 c cs _ hne hnil =>
    obtain rfl := List.mem_singleton.1 h
    simpa using fun heq => hne heq.symm
  | case5 c cs _ hne first rest hcons ih =>
    rw [hcons] at ih
    rcases List.mem_cons.1 h with rfl | h
    · simpa [ih List.mem_cons_self] using fun heq => hne heq.symm
    · exact ih (List.mem_cons_of_mem _ h)

/-- Cut at its line feeds, a text has the same lines. Some of them have a carriage return at their
end, and there may be an empty one at the end. -/
theorem exists_lines_eq (cs : List Char) :
    ∃ heads tail, lines cs = heads ++ tail ∧ (tail = [] ∨ tail = [[]]) ∧
      List.Forall₂ (fun line content => line = content ∨ line = content ++ ['\r']) heads
        (lineContents cs) := by
  fun_induction lineContents cs with
  | case1 => exact ⟨[], [[]], rfl, .inr rfl, .nil⟩
  | case2 cs ih =>
    obtain ⟨heads, tail, hlines, htail, hheads⟩ := ih
    refine ⟨['\r'] :: heads, tail, ?_, htail, .cons (.inr rfl) hheads⟩
    obtain ⟨line, rest, hcs, hcons⟩ := lines_cons_of_ne (by decide : '\r' ≠ '\n') ('\n' :: cs)
    rw [lines_cons_newline, hlines] at hcs
    obtain ⟨rfl, rfl⟩ := List.cons.inj hcs
    exact hcons
  | case3 cs ih =>
    obtain ⟨heads, tail, hlines, htail, hheads⟩ := ih
    refine ⟨[] :: heads, tail, ?_, htail, .cons (.inl rfl) hheads⟩
    rw [lines_cons_newline, hlines]
    rfl
  | case4 c cs _ hne hnil =>
    -- the last line has no end
    obtain rfl := lineContents_eq_nil_iff.1 hnil
    refine ⟨[[c]], [], ?_, .inl rfl, .cons (.inl rfl) .nil⟩
    exact lines_of_notMem (by simpa using fun heq => hne heq.symm)
  | case5 c cs _ hne line contents hcontents ih =>
    obtain ⟨heads, tail, hlines, htail, hheads⟩ := ih
    rw [hcontents] at hheads
    cases hheads with
    | @cons head _ heads _ hhead hheads =>
      refine ⟨(c :: head) :: heads, tail, ?_, htail, .cons ?_ hheads⟩
      · obtain ⟨first, rest, hcs, hcons⟩ := lines_cons_of_ne hne cs
        rw [hlines] at hcs
        obtain ⟨rfl, rfl⟩ := List.cons.inj hcs
        exact hcons
      · exact hhead.imp (congrArg (c :: ·)) (congrArg (c :: ·))

/-- The words of all lines, in whichever way the lines are told apart. -/
theorem map_wordsOf_lines (cs : List Char) : ∃ tail, (tail = [] ∨ tail = [[]]) ∧
    (lines cs).map wordsOf = (lineContents cs).map wordsOf ++ tail := by
  obtain ⟨heads, tail, hlines, htail, hheads⟩ := exists_lines_eq cs
  have hwords : heads.map wordsOf = (lineContents cs).map wordsOf := by
    refine List.forall₂_eq_eq_eq ▸ (List.rel_map (fun line content h => ?_) hheads)
    rcases h with rfl | rfl
    · rfl
    · exact wordsOf_append_carriageReturn content
  refine ⟨tail.map wordsOf, htail.imp ?_ ?_, by rw [hlines, List.map_append, hwords]⟩
  · rintro rfl
    rfl
  · rintro rfl
    rfl

end FlowBubbles.EdgeList
