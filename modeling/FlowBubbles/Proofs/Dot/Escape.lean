import Mathlib.Data.List.Basic
import FlowBubbles.Dot.Escape

/-!
# Escaped texts, character by character

The replacements of a text run one after the other, over text that the earlier ones have already
lengthened. `escapeChars_eq_flatMap` says that their result is nevertheless that of a single
substitution, which looks at one character at a time.
-/

namespace FlowBubbles.Dot

/-- What becomes of a single character. -/
def escapeChar (c : Char) : List Char :=
  if c = '\\' ∨ c = '"' ∨ c = '<' ∨ c = '>' then ['\\', c]
  else if c = '\n' then ['\\', 'n']
  else if c = '\r' then []
  else [c]

/-- The text with its carriage returns taken out. -/
def withoutReturns (s : String) : String := String.ofList (s.toList.filter (· ≠ '\r'))

@[simp]
theorem toList_withoutReturns (s : String) :
    (withoutReturns s).toList = s.toList.filter (· ≠ '\r') := by
  simp [withoutReturns]

theorem escapeChars_eq_flatMap (cs : List Char) : escapeChars cs = cs.flatMap escapeChar := by
  simp only [escapeChars, replacements, Replacement.apply, List.foldl_cons, List.foldl_nil,
    List.flatMap_assoc]
  congr 1
  funext c
  by_cases hmark : c = '\\' ∨ c = '"' ∨ c = '<' ∨ c = '>'
  · rcases hmark with rfl | rfl | rfl | rfl <;> rfl
  by_cases hline : c = '\n'
  · subst hline; rfl
  by_cases hreturn : c = '\r'
  · subst hreturn; rfl
  · simp_all [escapeChar]

theorem newline_notMem_escapeChar (c : Char) : '\n' ∉ escapeChar c := by
  by_cases h : c = '\n'
  · subst h; decide
  · have h' : '\n' ≠ c := fun e => h e.symm
    unfold escapeChar
    split_ifs <;> simp [h']

theorem newline_notMem_escapeChars (cs : List Char) : '\n' ∉ escapeChars cs := by
  rw [escapeChars_eq_flatMap, List.mem_flatMap]
  rintro ⟨c, -, h⟩
  exact newline_notMem_escapeChar c h

/-- Carriage returns leave no trace. -/
theorem escape_withoutReturns (s : String) : escape (withoutReturns s) = escape s := by
  simp only [escape, toList_withoutReturns, escapeChars_eq_flatMap]
  congr 1
  induction s.toList with
  | nil => rfl
  | cons c cs ih =>
    by_cases h : c = '\r'
    · subst h
      simpa [escapeChar] using ih
    · simpa [h] using ih

end FlowBubbles.Dot
