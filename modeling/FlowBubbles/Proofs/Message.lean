import FlowBubbles.EdgeList
import FlowBubbles.Error
import FlowBubbles.Proofs.Text.Words

/-!
# What messages tell

A reader of a message finds in it what the error is about. The numbers in the message of a bad line
are the number of the line and how many words it has. Those in a message on nodes are the nodes and
how many there are, and those in a message on cycles are the passes and the components that are
left. An edge that names an unknown key is shown with both keys.
-/

namespace FlowBubbles

variable {s t u : String}

/-! ## Numbers in a text -/

/-- The numbers in a text: its longest runs of digits. -/
def numbersIn (cs : List Char) : List Nat :=
  ((Text.pieces (!·.isDigit) cs).filter (!·.isEmpty)).map (Nat.ofDigitChars 10 · 0)

/-- A character that is no digit ends a number. -/
theorem numbersIn_append_cons {c : Char} (hc : c.isDigit = false) (cs cs' : List Char) :
    numbersIn (cs ++ c :: cs') = numbersIn cs ++ numbersIn cs' := by
  rw [numbersIn, Text.pieces_append_cons (by simp [hc]), List.filter_append, List.map_append]
  rfl

theorem numbersIn_append_of_forall {cs : List Char} (h : ∀ c ∈ cs, c.isDigit = false)
    (rest : List Char) : numbersIn (cs ++ rest) = numbersIn rest := by
  induction cs with
  | nil => rfl
  | cons c cs ih =>
    obtain ⟨hc, hcs⟩ := List.forall_mem_cons.1 h
    exact (numbersIn_append_cons hc [] (cs ++ rest)).trans (ih hcs)

theorem numbersIn_toDigits (n : Nat) : numbersIn (Nat.toDigits 10 n) = [n] := by
  have hdigits : ∀ c ∈ Nat.toDigits 10 n, (!c.isDigit) = false := fun c hc => by
    simpa using Nat.isDigit_of_mem_toDigits (by decide) (by decide) hc
  have hne : (Nat.toDigits 10 n).isEmpty = false := by simp [Nat.toDigits_ne_nil]
  rw [numbersIn, Text.pieces_of_forall hdigits, List.filter_cons_of_pos (by simp [hne])]
  simp

/-! ### Texts without digits -/

/-- Whether a text has no digits in it. -/
def NoDigits (s : String) : Prop := s.toList.all (!·.isDigit) = true

instance (s : String) : Decidable (NoDigits s) :=
  inferInstanceAs (Decidable (s.toList.all (!·.isDigit) = true))

/-- Whether a text can stand between two numbers. -/
def Separates (s : String) : Prop := s ≠ "" ∧ NoDigits s

instance (s : String) : Decidable (Separates s) := inferInstanceAs (Decidable (_ ∧ _))

theorem NoDigits.isDigit_eq_false (h : NoDigits s) : ∀ c ∈ s.toList, c.isDigit = false :=
  fun c hc => by simpa using List.all_eq_true.1 h c hc

theorem numbersIn_append (h : NoDigits s) (t : String) :
    numbersIn (s ++ t).toList = numbersIn t.toList := by
  rw [String.toList_append, numbersIn_append_of_forall h.isDigit_eq_false]

theorem numbersIn_toString_append (h : Separates s) (n : Nat) (t : String) :
    numbersIn (toString n ++ s ++ t).toList = n :: numbersIn t.toList := by
  have hall := h.2.isDigit_eq_false
  -- the first character of the separator ends the number, and its others begin none
  obtain ⟨c, cs, hchars⟩ := List.exists_cons_of_ne_nil (mt String.toList_eq_nil_iff.1 h.1)
  rw [hchars] at hall
  obtain ⟨hc, hcs⟩ := List.forall_mem_cons.1 hall
  rw [String.toList_append, String.toList_append, List.append_assoc, Nat.toString_eq_repr,
    Nat.toList_repr, hchars, List.cons_append, numbersIn_append_cons hc, numbersIn_toDigits,
    numbersIn_append_of_forall hcs]
  rfl

/-- Two numbers with texts around and between them. -/
theorem numbersIn_pair (h : NoDigits s ∧ Separates t ∧ Separates u) (m n : Nat) :
    numbersIn (s ++ toString m ++ t ++ toString n ++ u).toList = [m, n] := by
  have hend := numbersIn_toString_append h.2.2 n ""
  rw [String.append_empty] at hend
  rw [String.append_assoc, String.append_assoc, String.append_assoc, numbersIn_append h.1,
    ← String.append_assoc, numbersIn_toString_append h.2.1, hend]
  rfl

/-! ## Messages -/

/-- The message of a bad line tells its number and how many words it has. -/
theorem EdgeList.Flaw.numbersIn_message (f : Flaw) :
    numbersIn f.message.toList = [f.line, f.words] :=
  numbersIn_pair (by decide +kernel) f.line f.words

namespace GraphFlaw

/-- The message on a missing node tells the node and how many nodes there are. -/
theorem numbersIn_message_missing (v n : Nat) :
    numbersIn (missingSource v n).message.toList = [v, n] ∧
      numbersIn (missingTarget v n).message.toList = [v, n] := by
  have hnumbers : ∀ role : String, NoDigits (role ++ "n") →
      numbersIn (role ++ nodeName v ++ " does not exist in graph with " ++ toString n ++
        " nodes").toList = [v, n] := by
    intro role hrole
    rw [nodeName, ← String.append_assoc]
    exact numbersIn_pair ⟨hrole, by decide +kernel, by decide +kernel⟩ v n
  exact ⟨hnumbers "source node " (by decide +kernel), hnumbers "target node " (by decide +kernel)⟩

/-- The message on an edge that names an unknown key shows the edge. -/
theorem message_foreignEdge (s t : String) : (foreignEdge s t).message =
    "edge " ++ ("(" ++ s ++ ", " ++ t ++ ")") ++ " references a node outside the node set" := by
  have hopen : "edge (" = "edge " ++ "(" := by decide +kernel
  have hclose : ") references a node outside the node set" =
      ")" ++ " references a node outside the node set" := by decide +kernel
  have hgroup : ∀ a b c d : String, (a ++ b) ++ s ++ ", " ++ t ++ (c ++ d) =
      a ++ (b ++ s ++ ", " ++ t ++ c) ++ d := by
    intro a b c d
    simp only [String.append_assoc]
  calc (foreignEdge s t).message
      = ("edge " ++ "(") ++ s ++ ", " ++ t ++
          (")" ++ " references a node outside the node set") :=
        congrArg₂ (· ++ s ++ ", " ++ t ++ ·) hopen hclose
    _ = "edge " ++ ("(" ++ s ++ ", " ++ t ++ ")") ++ " references a node outside the node set" :=
        hgroup ..

end GraphFlaw

namespace Error

/-- The message on cycles that are left tells the passes and the number of cyclic components. -/
theorem numbersIn_message_cyclesRemain (passes components : Nat) :
    numbersIn (cyclesRemain passes components).message.toList = [passes, components] :=
  numbersIn_pair (by decide +kernel) passes components

theorem numbersIn_intercalate_nodeName (nodes : List Nat) :
    numbersIn (", ".intercalate (nodes.map nodeName)).toList = nodes := by
  have hname : ∀ v rest, numbersIn (nodeName v ++ rest).toList =
      numbersIn (toString v ++ rest).toList := by
    intro v rest
    rw [nodeName, String.append_assoc]
    exact numbersIn_append (by decide +kernel) _
  induction nodes with
  | nil => rfl
  | cons v nodes ih =>
    cases nodes with
    | nil =>
      have hlast := hname v ""
      rw [String.append_empty, String.append_empty, Nat.toString_eq_repr, Nat.toList_repr,
        numbersIn_toDigits] at hlast
      rwa [List.map_singleton, String.intercalate_singleton]
    | cons w nodes =>
      have hnext := numbersIn_toString_append (s := ", ") (by decide +kernel) v
      rw [List.map_cons, List.map_cons, String.intercalate_cons_cons, String.append_assoc, hname,
        ← String.append_assoc]
      exact (hnext _).trans (congrArg (v :: ·) ih)

/-- The message on unreachable nodes tells how many they are, and then all of them. -/
theorem numbersIn_message_unreachableNodes (nodes : List Nat) :
    numbersIn (unreachableNodes nodes).message.toList = nodes.length :: nodes :=
  (numbersIn_toString_append (by decide +kernel) nodes.length _).trans
    (congrArg (nodes.length :: ·) (numbersIn_intercalate_nodeName nodes))

end Error

end FlowBubbles
