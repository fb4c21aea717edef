import FlowBubbles.Text.Blank
import Mathlib.Data.List.Basic
import Mathlib.Data.List.TakeWhile

/-!
# Words between blanks

`Spaced` says what it means that words stand in a text with blanks between them, without a rule how
to find them. A text has exactly one list of words in this sense, the one that `words` finds
(`spaced_iff`).
-/

namespace FlowBubbles.Text

variable {p : Char → Bool} {c : Char} {cs cs' w : List Char} {ws : List (List Char)}

/-! ## Pieces -/

theorem pieces_eq_splitOnP (p : Char → Bool) (cs : List Char) : pieces p cs = cs.splitOnP p := by
  induction cs with
  | nil => rfl
  | cons c cs ih =>
    rw [List.splitOnP_cons_eq_if_modifyHead, pieces, List.foldr_cons, ← pieces, ih]
    cases hcs : cs.splitOnP p with
    | nil => exact absurd hcs (List.splitOnP_ne_nil p cs)
    | cons piece rest => rfl

theorem pieces_ne_nil (p : Char → Bool) (cs : List Char) : pieces p cs ≠ [] :=
  pieces_eq_splitOnP p cs ▸ List.splitOnP_ne_nil p cs

/-- A separator ends a piece. -/
theorem pieces_append_cons (hc : p c) (cs cs' : List Char) :
    pieces p (cs ++ c :: cs') = pieces p cs ++ pieces p cs' := by
  simp only [pieces_eq_splitOnP, List.splitOnP_append_cons cs cs' hc]

theorem pieces_cons (hc : p c) (cs : List Char) : pieces p (c :: cs) = [] :: pieces p cs :=
  pieces_append_cons hc [] cs

/-- A text without separators is one piece. -/
theorem pieces_of_forall (h : ∀ c ∈ cs, p c = false) : pieces p cs = [cs] := by
  rw [pieces_eq_splitOnP, List.splitOnP_eq_singleton h]

/-- No piece has a separator in it. -/
theorem eq_false_of_mem_pieces (h : w ∈ pieces p cs) : ∀ c ∈ w, p c = false := by
  rw [pieces_eq_splitOnP] at h
  induction cs generalizing w with
  | nil =>
    obtain rfl : w = [] := by simpa using h
    exact List.forall_mem_nil _
  | cons c cs ih =>
    rw [List.splitOnP_cons_eq_if_modifyHead] at h
    split at h
    · rcases List.mem_cons.1 h with rfl | h
      · exact List.forall_mem_nil _
      · exact ih h
    · -- the character goes to the first of the pieces behind it
      rename_i hc
      obtain ⟨piece, rest, hcs⟩ := List.exists_cons_of_ne_nil (List.splitOnP_ne_nil p cs)
      rw [hcs, List.modifyHead_cons] at h
      rw [hcs] at ih
      rcases List.mem_cons.1 h with rfl | h
      · exact List.forall_mem_cons.2 ⟨by simpa using hc, ih List.mem_cons_self⟩
      · exact ih (List.mem_cons_of_mem _ h)

/-! ## Words -/

theorem isBlank_eq_false_of_mem_words (h : w ∈ words cs) : ∀ c ∈ w, isBlank c = false :=
  eq_false_of_mem_pieces (List.mem_filter.1 h).1

theorem words_append_cons (hc : isBlank c) (cs cs' : List Char) :
    words (cs ++ c :: cs') = words cs ++ words cs' := by
  rw [words, pieces_append_cons hc, List.filter_append]
  rfl

theorem words_cons (hc : isBlank c) (cs : List Char) : words (c :: cs) = words cs :=
  words_append_cons hc [] cs

theorem words_concat (hc : isBlank c) (cs : List Char) : words (cs ++ [c]) = words cs :=
  (words_append_cons hc cs []).trans (List.append_nil _)

theorem words_of_forall (hne : w ≠ []) (hw : ∀ c ∈ w, isBlank c = false) : words w = [w] := by
  rw [words, pieces_of_forall hw, List.filter_cons_of_pos (by simpa using hne)]
  rfl

/-- A word that is followed by a blank, or by nothing, is a word of the text. -/
theorem words_append (hne : w ≠ []) (hw : ∀ c ∈ w, isBlank c = false)
    (hend : ∀ c, cs.head? = some c → isBlank c) : words (w ++ cs) = w :: words cs := by
  cases cs with
  | nil => rw [List.append_nil, words_of_forall hne hw]; rfl
  | cons c cs =>
    have hc := hend c rfl
    rw [words_append_cons hc, words_of_forall hne hw, words_cons hc]
    rfl

/-- A blank at an end of a text, or next to another blank, makes no difference to its words. -/
theorem words_insert_blank (hc : isBlank c) (h : (∀ x, cs.getLast? = some x → isBlank x) ∨
    ∀ x, cs'.head? = some x → isBlank x) :
    words (cs ++ c :: cs') = words (cs ++ cs') := by
  rw [words_append_cons hc]
  rcases h with h | h
  · rcases List.eq_nil_or_concat cs with rfl | ⟨l, x, rfl⟩
    · rfl
    · have hx : isBlank x := h x (by simp)
      rw [List.concat_eq_append, words_concat hx, List.append_assoc, List.singleton_append,
        words_append_cons hx]
  · cases cs' with
    | nil => rw [List.append_nil, ← words_append_cons hc, words_concat hc]
    | cons x l =>
      have hx : isBlank x := h x rfl
      rw [words_cons hx, words_append_cons hx]

/-- Whether words stand in a text one after the other. Blanks are between them and may be around
them; a word is not empty and has no blank in it. -/
inductive Spaced : List Char → List (List Char) → Prop
  | nil : Spaced [] []
  | blank {c : Char} {cs : List Char} {ws : List (List Char)} (hc : isBlank c)
      (h : Spaced cs ws) : Spaced (c :: cs) ws
  | word {w cs : List Char} {ws : List (List Char)} (hne : w ≠ [])
      (hw : ∀ c ∈ w, isBlank c = false) (hend : ∀ c, cs.head? = some c → isBlank c)
      (h : Spaced cs ws) : Spaced (w ++ cs) (w :: ws)

theorem Spaced.words_eq (h : Spaced cs ws) : words cs = ws := by
  induction h with
  | nil => rfl
  | blank hc _ ih => rw [words_cons hc, ih]
  | word hne hw hend _ ih => rw [words_append hne hw hend, ih]

/-- In every text some words stand. -/
theorem exists_spaced (cs : List Char) : ∃ ws, Spaced cs ws := by
  induction hn : cs.length using Nat.strongRecOn generalizing cs with
  | ind n ih =>
    cases cs with
    | nil => exact ⟨[], .nil⟩
    | cons c cs =>
      by_cases hc : isBlank c
      · obtain ⟨ws, hws⟩ := ih cs.length (by simp [← hn]) cs rfl
        exact ⟨ws, .blank hc hws⟩
      · -- the word goes up to the next blank
        let w := (c :: cs).takeWhile (!isBlank ·)
        let rest := (c :: cs).dropWhile (!isBlank ·)
        have hsplit : w ++ rest = c :: cs := List.takeWhile_append_dropWhile
        have hw : w ≠ [] := by simp [w, hc]
        have hlength : rest.length < n := by
          have := congrArg List.length hsplit
          have := List.length_pos_iff.2 hw
          rw [List.length_append] at *
          omega
        obtain ⟨ws, hws⟩ := ih rest.length hlength rest rfl
        refine ⟨w :: ws, hsplit ▸ .word hw (fun x hx => ?_) (fun x hx => ?_) hws⟩
        · simpa using List.mem_takeWhile_imp hx
        · have hhead := List.head?_dropWhile_not (!isBlank ·) (c :: cs)
          rw [show ((c :: cs).dropWhile (!isBlank ·)).head? = some x from hx] at hhead
          simpa using hhead

/-- The words of a text are those that stand in it. -/
theorem spaced_iff : Spaced cs ws ↔ words cs = ws := by
  refine ⟨Spaced.words_eq, fun h => ?_⟩
  obtain ⟨ws', hws'⟩ := exists_spaced cs
  rwa [← h, hws'.words_eq]

end FlowBubbles.Text
