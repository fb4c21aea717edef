import FlowBubbles.CommandLine.Output
import FlowBubbles.Proofs.EdgeList.Lines
import Mathlib.Data.List.DropRight

/-!
# Reading an output

An output is read without a look at how it was made. In a text, the lines under a title are the
indented ones behind it (`linesUnder`), and they show a drawn table if they are its lines up to blanks
at their ends (`ShowsTable`). In a JSON record, a field is found by its name (`ShowsField`). Neither
depends on how tables are drawn or values are written.
-/

namespace FlowBubbles.CommandLine

open Text EdgeList

variable {f : Formats} {s name value title remark drawn : String} {t : Table}
  {ls before body after : List String}

/-! ## Texts on one line -/

/-- Whether a text has no end of a line in it. -/
def OneLine (s : String) : Prop := '\n' ∉ s.toList

instance (s : String) : Decidable (OneLine s) := inferInstanceAs (Decidable ('\n' ∉ s.toList))

theorem OneLine.append {s s' : String} (h : OneLine s) (h' : OneLine s') : OneLine (s ++ s') := by
  rw [OneLine, String.toList_append, List.mem_append]
  exact not_or.2 ⟨h, h'⟩

theorem oneLine_spaces (n : Nat) : OneLine (spaces n) := by
  simp [OneLine, spaces]

theorem oneLine_toString (n : Nat) : OneLine (toString n) := by
  intro hmem
  rw [Nat.toString_eq_repr, Nat.toList_repr] at hmem
  exact absurd (Nat.isDigit_of_mem_toDigits (by decide) (by decide) hmem) (by decide)

theorem oneLine_nodeName (v : Nat) : OneLine (nodeName v) :=
  OneLine.append (by decide) (oneLine_toString v)

theorem oneLine_intercalate (h : ∀ s ∈ ls, OneLine s) : OneLine (" ".intercalate ls) := by
  induction ls with
  | nil => exact List.not_mem_nil
  | cons s rest ih =>
    obtain ⟨hs, hrest⟩ := List.forall_mem_cons.1 h
    cases rest with
    | nil => rwa [String.intercalate_singleton]
    | cons s' rest =>
      rw [String.intercalate_cons_cons]
      exact (hs.append (by decide)).append (ih hrest)

theorem oneLine_fieldLine (hname : OneLine name) (hvalue : OneLine value) :
    OneLine (fieldLine name value) :=
  ((hname.append (by decide)).append (oneLine_spaces _)).append hvalue

theorem head?_toList_append (h : s ≠ "") (s' : String) :
    (s ++ s').toList.head? = s.toList.head? := by
  have hchars : s.toList ≠ [] := fun hnil => h (String.toList_eq_nil_iff.1 hnil)
  rw [String.toList_append, List.head?_append_of_ne_nil _ hchars]

/-! ## Lines of a text -/

/-- Lines that are printed are read back, whatever follows. -/
theorem lines_unlines_append (h : ∀ l ∈ ls, OneLine l) (rest : List Char) :
    lines ((unlines ls).toList ++ rest) = ls.map String.toList ++ lines rest := by
  induction ls with
  | nil => rfl
  | cons l ls ih =>
    obtain ⟨hl, hls⟩ := List.forall_mem_cons.1 h
    have htext : (unlines (l :: ls)).toList ++ rest =
        l.toList ++ '\n' :: ((unlines ls).toList ++ rest) := by
      simp [unlines, String.join_cons]
    rw [htext, lines_append_newline, lines_of_notMem hl, ih hls]
    rfl

theorem unlines_append (ls ls' : List String) : unlines (ls ++ ls') = unlines ls ++ unlines ls' := by
  simp [unlines]

/-- The lines of a text under a title: those behind the first line with the title, as far as they are
indented. -/
def linesUnder (title out : String) : List (List Char) :=
  ((lines out.toList).dropWhile (· != (title ++ ":").toList)).tail.takeWhile ([' ', ' '].isPrefixOf ·)

/-- Whether a text can be a title: it does not look like an empty or an indented line. -/
structure IsTitle (title : String) : Prop where
  oneLine : OneLine title
  ne_empty : title ≠ ""
  head?_ne : title.toList.head? ≠ some ' '

/-- Whether lines can stand in front of a part with a title: none of them starts like the title. -/
def Precede (ls : List String) (title : String) : Prop :=
  ∀ l ∈ ls, OneLine l ∧ l.toList.head? ≠ title.toList.head?

theorem Precede.append {ls' : List String} (h : Precede ls title) (h' : Precede ls' title) :
    Precede (ls ++ ls') title :=
  List.forall_mem_append.2 ⟨h, h'⟩

theorem precede_empty (h : IsTitle title) : Precede [""] title :=
  List.forall_mem_singleton.2 ⟨List.not_mem_nil, fun heq => h.ne_empty (by simpa using heq.symm)⟩

/-- Whether the first one of some lines, if there is one, is empty. -/
def StartsEmpty (ls : List String) : Prop := ∀ l, ls.head? = some l → l = ""

theorem StartsEmpty.append {ls' : List String} (h : StartsEmpty ls) (h' : StartsEmpty ls') :
    StartsEmpty (ls ++ ls') := by
  cases ls with
  | nil => exact h'
  | cons l ls => exact h

theorem StartsEmpty.lines_unlines (h : StartsEmpty ls) :
    ∃ rest, lines (unlines ls).toList = [] :: rest := by
  cases ls with
  | nil => exact ⟨[], rfl⟩
  | cons l ls =>
    obtain rfl := h l rfl
    rw [← List.singleton_append, unlines_append, String.toList_append]
    exact ⟨_, lines_unlines_append (by simp [OneLine]) _⟩

theorem startsEmpty_tablePart : StartsEmpty (tablePart f title remark t) := fun _ h =>
  (Option.some.inj h).symm

/-- The lines of a part with a title are read back. -/
theorem linesUnder_unlines (htitle : IsTitle title) (hbefore : Precede before title)
    (hbody : ∀ l ∈ body, OneLine l ∧ [' ', ' '] <+: l.toList)
    (hafter : StartsEmpty after) :
    linesUnder title (unlines (before ++ (title ++ ":") :: (body ++ after))) =
      body.map String.toList := by
  have hlines : ∀ l ∈ before ++ (title ++ ":") :: body, OneLine l := by
    intro l hl
    rcases List.mem_append.1 hl with hl | hl
    · exact (hbefore l hl).1
    · rcases List.mem_cons.1 hl with rfl | hl
      · exact htitle.oneLine.append (by decide)
      · exact (hbody l hl).1
  -- the line behind the part is empty, so it is not indented
  obtain ⟨rest, hrest⟩ := hafter.lines_unlines
  have hread : lines (unlines (before ++ (title ++ ":") :: (body ++ after))).toList =
      before.map String.toList ++
        (title ++ ":").toList :: (body.map String.toList ++ [] :: rest) := by
    have hcut : before ++ (title ++ ":") :: (body ++ after) =
        (before ++ (title ++ ":") :: body) ++ after := by
      rw [List.append_assoc, List.cons_append]
    rw [hcut, unlines_append, String.toList_append, lines_unlines_append hlines, hrest,
      List.map_append, List.append_assoc]
    rfl
  have hskip : ∀ l ∈ before.map String.toList, (l != (title ++ ":").toList) = true := by
    refine List.forall_mem_map.2 fun l hl => bne_iff_ne.2 fun heq => (hbefore l hl).2 ?_
    rw [heq, head?_toList_append htitle.ne_empty]
  have hshown : ∀ l ∈ body.map String.toList, [' ', ' '].isPrefixOf l = true :=
    List.forall_mem_map.2 fun l hl => List.isPrefixOf_iff_prefix.2 (hbody l hl).2
  rw [linesUnder, hread, List.dropWhile_append_of_pos hskip, List.dropWhile_cons_of_neg (by simp),
    List.tail_cons, List.takeWhile_append_of_pos hshown, List.takeWhile_cons_of_neg (by decide),
    List.append_nil]

/-! ## Tables -/

/-- Whether lines show a drawn text: all its lines that are not blank, in order, each indented and
without some blanks at its end. -/
def ShowsLines (drawn : String) (shown : List (List Char)) : Prop :=
  List.Forall₂ (fun line s =>
      ∃ blanks, (∀ c ∈ blanks, isBlank c = true) ∧ ' ' :: ' ' :: line = s ++ blanks)
    ((lines drawn.toList).filter (!·.all isBlank)) shown

/-- Whether a text shows a table under a title. A table without rows is not drawn, and a remark is
all that it shows. -/
def ShowsTable (f : Formats) (title remark : String) (t : Table) (out : String) : Prop :=
  if t.rows = [] then linesUnder title out = [("  " ++ remark).toList]
  else ShowsLines (f.table t) (linesUnder title out)

theorem trimEnd_append_rtakeWhile (cs : List Char) : trimEnd cs ++ cs.rtakeWhile isBlank = cs :=
  List.rdropWhile_append_rtakeWhile ..

theorem isEmpty_trimEnd (cs : List Char) : (trimEnd cs).isEmpty = cs.all isBlank := by
  rw [Bool.eq_iff_iff, List.isEmpty_iff, List.all_eq_true]
  exact List.rdropWhile_eq_nil_iff

theorem map_toList_printedLines (drawn : String) : (printedLines drawn).map String.toList =
    ((lines drawn.toList).filter (!·.all isBlank)).map fun l => ' ' :: ' ' :: trimEnd l := by
  have hblank : (fun l : List Char => !l.isEmpty) ∘ trimEnd = (!·.all isBlank) :=
    funext fun l => congrArg (!·) (isEmpty_trimEnd l)
  rw [printedLines, List.filter_map, hblank, List.map_map, List.map_map]
  refine List.map_congr_left fun l _ => ?_
  simp

theorem showsLines_printedLines (drawn : String) :
    ShowsLines drawn ((printedLines drawn).map String.toList) := by
  rw [map_toList_printedLines]
  refine List.forall₂_map_right_iff.2 (List.forall₂_same.2 fun l _ => ?_)
  refine ⟨l.rtakeWhile isBlank, fun c hc => List.mem_rtakeWhile_imp hc, ?_⟩
  rw [List.cons_append, List.cons_append, trimEnd_append_rtakeWhile]

theorem oneLine_of_mem_printedLines {l : String} (hl : l ∈ printedLines drawn) :
    OneLine l ∧ [' ', ' '] <+: l.toList := by
  have hchars := List.mem_map_of_mem (f := String.toList) hl
  rw [map_toList_printedLines] at hchars
  obtain ⟨line, hline, heq⟩ := List.mem_map.1 hchars
  have hnewline : '\n' ∉ line := newline_notMem_of_mem_lines (List.mem_filter.1 hline).1
  have htrim : '\n' ∉ trimEnd line := fun hmem =>
    hnewline ((List.rdropWhile_prefix isBlank line).subset hmem)
  rw [OneLine, ← heq]
  exact ⟨by simpa using htrim, List.prefix_append [' ', ' '] (trimEnd line)⟩

theorem oneLine_of_mem_tableLines (hremark : OneLine remark) :
    ∀ l ∈ tableLines f remark t, OneLine l ∧ [' ', ' '] <+: l.toList := by
  intro l hl
  rw [tableLines] at hl
  split at hl
  · obtain rfl := List.mem_singleton.1 hl
    refine ⟨OneLine.append (by decide) hremark, ?_⟩
    rw [String.toList_append]
    exact List.prefix_append _ _
  · exact oneLine_of_mem_printedLines hl

/-- The table of a part is shown. -/
theorem showsTable_unlines (htitle : IsTitle title) (hremark : OneLine remark)
    (hbefore : Precede before title) (hafter : StartsEmpty after) :
    ShowsTable f title remark t (unlines (before ++ tablePart f title remark t ++ after)) := by
  have hlines : linesUnder title (unlines (before ++ tablePart f title remark t ++ after)) =
      (tableLines f remark t).map String.toList := by
    -- the empty line in front of the title belongs to what precedes it
    have hsplit : before ++ tablePart f title remark t ++ after =
        (before ++ [""]) ++ (title ++ ":") :: (tableLines f remark t ++ after) := by
      simp [tablePart]
    rw [hsplit, linesUnder_unlines htitle (hbefore.append (precede_empty htitle))
      (oneLine_of_mem_tableLines hremark) hafter]
  rw [ShowsTable, hlines, tableLines]
  split_ifs with hrows hrows'
  · rfl
  · exact absurd (List.isEmpty_iff.2 hrows) hrows'
  · rename_i hrows'
    exact absurd (List.isEmpty_iff.1 hrows') hrows
  · exact showsLines_printedLines (f.table t)

/-! ### Lines in front of a part -/

/-- Whether a name starts otherwise than a title. -/
def StartsOtherwise (name title : String) : Prop :=
  OneLine name ∧ name ≠ "" ∧ name.toList.head? ≠ title.toList.head?

instance (name title : String) : Decidable (StartsOtherwise name title) :=
  inferInstanceAs (Decidable (_ ∧ _ ∧ _))

theorem StartsOtherwise.head?_append (h : StartsOtherwise name title) (s : String) :
    (name ++ s).toList.head? ≠ title.toList.head? := by
  rw [head?_toList_append h.2.1]
  exact h.2.2

theorem precede_fieldLine (h : StartsOtherwise name title) (hvalue : OneLine value)
    (hls : Precede ls title) : Precede (fieldLine name value :: ls) title := by
  refine List.forall_mem_cons.2 ⟨⟨oneLine_fieldLine h.1 hvalue, ?_⟩, hls⟩
  rw [fieldLine, String.append_assoc, String.append_assoc]
  exact h.head?_append _

theorem precede_tablePart (htitle : IsTitle title) (h : StartsOtherwise name title)
    (hremark : OneLine remark) : Precede (tablePart f name remark t) title := by
  refine (precede_empty htitle).append (List.forall_mem_cons.2 ⟨?_, fun l hl => ?_⟩)
  · exact ⟨h.1.append (by decide), h.head?_append ":"⟩
  · obtain ⟨hline, rest, hchars⟩ := oneLine_of_mem_tableLines hremark l hl
    refine ⟨hline, ?_⟩
    rw [← hchars]
    exact fun heq => htitle.head?_ne heq.symm

/-! ## Fields -/

/-- Whether a text is that of a record in which one field has a name, with this value. -/
def ShowsField (f : Formats) (name : String) (value : Json) (out : String) : Prop :=
  ∃ fields, out = f.value (.record fields) ++ "\n" ∧
    fields.filter (·.1 == name) = [(name, value)]

end FlowBubbles.CommandLine
