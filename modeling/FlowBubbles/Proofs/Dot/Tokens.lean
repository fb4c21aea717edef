import FlowBubbles.Proofs.Dot.Escape
import FlowBubbles.Dot.Document

/-!
# Tokens of a drawing

A reader of the DOT language takes a document apart into words, signs and texts before it looks at
statements. A text runs from a quote to the next one that no backslash stands before, whatever is
in between. The scan below follows this rule character by character and knows nothing of how
documents are written.
-/

namespace FlowBubbles.Dot

/-- What a document is made of: bare words, single signs, and texts in quotes. -/
inductive Token
  | word (name : String)
  | sign (c : Char)
  | text (content : String)
deriving DecidableEq, Repr

/-- The token with another content, when it is a text. -/
def Token.mapText (f : String → String) : Token → Token
  | text content => text (f content)
  | word name => word name
  | sign c => sign c

/-- Characters of a word. Digits are among them, as numbers are words as well, and every character
beyond ASCII counts as a letter, as it does in the DOT language. -/
def isWordChar (c : Char) : Bool := c.isAlphanum || c == '_' || 128 ≤ c.toNat

/-- A name that needs no quotes: letters, digits and underscores, with no digit in front. -/
def isPlainName (s : String) : Bool :=
  match s.toList with
  | [] => false
  | c :: cs => !c.isDigit && (c :: cs).all isWordChar

theorem isWordChar_of_isPlainName {s : String} (h : isPlainName s) : ∀ c ∈ s.toList, isWordChar c := by
  unfold isPlainName at h
  cases hs : s.toList with
  | nil => simp
  | cons c cs =>
    rw [hs, Bool.and_eq_true, List.all_eq_true] at h
    exact h.2

/-- What the character behind a backslash stands for. -/
def unescape (c : Char) : Char := if c = 'n' then '\n' else c

/-! ## The scan -/

/-- Where the scan stands: between tokens, in a word, in a text, or in a text right behind a
backslash. What has been read of the token goes with it. -/
inductive Mode
  | between
  | word (read : List Char)
  | text (read : List Char)
  | pair (read : List Char)
deriving DecidableEq, Repr

/-- The tokens read so far and where the scan stands. -/
structure Scan where
  tokens : List Token
  mode : Mode
deriving DecidableEq, Repr

namespace Scan

/-- A character where no token is open. -/
def start (tokens : List Token) (c : Char) : Scan :=
  if c = '"' then ⟨tokens, .text []⟩
  else if isWordChar c then ⟨tokens, .word [c]⟩
  else if c.isWhitespace then ⟨tokens, .between⟩
  else ⟨tokens ++ [.sign c], .between⟩

/-- One character of the document. -/
def step (s : Scan) (c : Char) : Scan :=
  match s.mode with
  | .between => start s.tokens c
  | .word read =>
    if isWordChar c then ⟨s.tokens, .word (read ++ [c])⟩
    else start (s.tokens ++ [.word (String.ofList read)]) c
  | .text read =>
    if c = '"' then ⟨s.tokens ++ [.text (String.ofList read)], .between⟩
    else if c = '\\' then ⟨s.tokens, .pair read⟩
    else ⟨s.tokens, .text (read ++ [c])⟩
  | .pair read => ⟨s.tokens, .text (read ++ [unescape c])⟩

/-- All characters, from left to right. -/
def run (s : Scan) (cs : List Char) : Scan := cs.foldl step s

/-- The tokens at the end of a document, unless it ends inside a text. -/
def finish? (s : Scan) : Option (List Token) :=
  match s.mode with
  | .between => some s.tokens
  | .word read => some (s.tokens ++ [.word (String.ofList read)])
  | .text _ | .pair _ => none

@[simp]
theorem run_nil (s : Scan) : s.run [] = s := rfl

@[simp]
theorem run_cons (s : Scan) (c : Char) (cs : List Char) :
    s.run (c :: cs) = (s.step c).run cs := rfl

theorem run_append (s : Scan) (cs cs' : List Char) :
    s.run (cs ++ cs') = (s.run cs).run cs' := by
  simp [run, List.foldl_append]

/-- The scan with further tokens in front of those it has read. -/
def after (seen : List Token) (s : Scan) : Scan := ⟨seen ++ s.tokens, s.mode⟩

theorem start_after (seen ts : List Token) (c : Char) :
    start (seen ++ ts) c = (start ts c).after seen := by
  unfold start after
  split_ifs <;> simp

theorem step_after (seen : List Token) (s : Scan) (c : Char) :
    (s.after seen).step c = (s.step c).after seen := by
  obtain ⟨ts, mode⟩ := s
  cases mode with
  | between => exact start_after seen ts c
  | word read =>
    simp only [step, after, List.append_assoc, start_after]
    split_ifs <;> rfl
  | text read =>
    simp only [step, after, List.append_assoc]
    split_ifs <;> rfl
  | pair read => rfl

/-- The scan never looks back at the tokens it has read. So a document can be scanned piece by
piece. -/
theorem run_after (seen : List Token) (s : Scan) (cs : List Char) :
    (s.after seen).run cs = (s.run cs).after seen := by
  induction cs generalizing s with
  | nil => rfl
  | cons c cs ih => rw [run_cons, step_after, ih, run_cons]

theorem run_word {read cs : List Char} (h : ∀ c ∈ cs, isWordChar c) (ts : List Token) :
    run ⟨ts, .word read⟩ cs = ⟨ts, .word (read ++ cs)⟩ := by
  induction cs generalizing read with
  | nil => simp
  | cons c cs ih =>
    obtain ⟨hc, hcs⟩ := List.forall_mem_cons.mp h
    have hstep : step ⟨ts, .word read⟩ c = ⟨ts, .word (read ++ [c])⟩ := if_pos hc
    rw [run_cons, hstep, ih hcs, List.append_assoc, List.singleton_append]

/-- Inside a text, the written form of a character is read as that character, except that nothing
is there to read of a carriage return. -/
theorem run_escapeChar (ts : List Token) (read : List Char) (c : Char) :
    run ⟨ts, .text read⟩ (escapeChar c) = ⟨ts, .text (read ++ [c].filter (· ≠ '\r'))⟩ := by
  unfold escapeChar
  split_ifs with hmark hline hreturn
  · rcases hmark with rfl | rfl | rfl | rfl <;> rfl
  · subst hline; rfl
  · subst hreturn; simp
  · obtain ⟨hbackslash, hquote, -⟩ : c ≠ '\\' ∧ c ≠ '"' ∧ ¬(c = '<' ∨ c = '>') := by
      simpa only [not_or, ne_eq] using hmark
    simp [step, hbackslash, hquote, hreturn]

theorem run_escapeChars (ts : List Token) (read cs : List Char) :
    run ⟨ts, .text read⟩ (escapeChars cs) = ⟨ts, .text (read ++ cs.filter (· ≠ '\r'))⟩ := by
  rw [escapeChars_eq_flatMap]
  induction cs generalizing read with
  | nil => simp
  | cons c cs ih =>
    rw [List.flatMap_cons, run_append, run_escapeChar, ih, List.append_assoc, ← List.filter_append,
      List.singleton_append]

end Scan

/-- The tokens of a document. -/
def tokens? (text : String) : Option (List Token) := (Scan.run ⟨[], .between⟩ text.toList).finish?

/-! ## Pieces of a document -/

/-- The piece of a document is made of these tokens, and ends with the last of them. -/
def Reads (text : String) (ts : List Token) : Prop :=
  Scan.run ⟨[], .between⟩ text.toList = ⟨ts, .between⟩

instance (text : String) (ts : List Token) : Decidable (Reads text ts) :=
  inferInstanceAs (Decidable (_ = _))

theorem Reads.tokens?_eq {text : String} {ts : List Token} (h : Reads text ts) :
    tokens? text = some ts := by
  rw [tokens?, h, Scan.finish?]

theorem reads_empty : Reads "" [] := rfl

theorem Reads.append {text text' : String} {ts ts' : List Token} (h : Reads text ts)
    (h' : Reads text' ts') : Reads (text ++ text') (ts ++ ts') := by
  have hseen := Scan.run_after ts ⟨[], .between⟩ text'.toList
  rw [h'] at hseen
  rw [Reads, String.toList_append, Scan.run_append, h]
  simpa [Scan.after] using hseen

/-- A text in quotes is a single token, whatever the text. -/
theorem reads_quote (s : String) : Reads (quote s) [.text (withoutReturns s)] := by
  simp only [Reads, quote, escape, String.toList_append, String.toList_ofList, Scan.run_append]
  have hopen : Scan.run ⟨[], .between⟩ "\"".toList = ⟨[], .text []⟩ := rfl
  rw [hopen, Scan.run_escapeChars]
  rfl

example : tokens? "\"a\\\";\" -> \"\\\\\";" =
    some [.text "a\";", .sign '-', .sign '>', .text "\\", .sign ';'] := by decide

/-- A plain name in front of an equals sign is a word. -/
theorem reads_key {key : String} (h : isPlainName key) :
    Reads (key ++ "=") [.word key, .sign '='] := by
  have hwords := isWordChar_of_isPlainName h
  obtain ⟨cs, rfl⟩ : ∃ cs, key = String.ofList cs := ⟨key.toList, by simp⟩
  cases cs with
  | nil => exact absurd h (by decide)
  | cons c cs =>
    rw [String.toList_ofList] at hwords
    obtain ⟨hword, hwords⟩ := List.forall_mem_cons.mp hwords
    have hquote : c ≠ '"' := by rintro rfl; exact absurd hword (by decide)
    have hstart : Scan.step ⟨[], .between⟩ c = ⟨[], .word [c]⟩ := by
      simp [Scan.step, Scan.start, hquote, hword]
    rw [Reads, String.toList_append, String.toList_ofList, Scan.run_append, Scan.run_cons, hstart,
      Scan.run_word hwords]
    rfl

end FlowBubbles.Dot
