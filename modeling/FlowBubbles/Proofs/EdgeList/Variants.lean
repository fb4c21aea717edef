import FlowBubbles.Proofs.EdgeList.Reading
import Mathlib.Data.List.Induction
import Mathlib.Logic.Relation

/-!
# Texts of one graph

An edge list may be laid out in many ways. `Variant` lists single changes of a text: of the ends of
its lines, of its comments, of its blanks, by an empty line, and by a copy of a line at its end. None
of them changes the graph (`parse_congr`), since the rows with words in them stay the same, or one
that is there already comes again (`Variant.entries_eq`).
-/

namespace FlowBubbles.EdgeList

open Text

variable {c : Char} {cs cs' p q x line l rest : List Char} {row : List String}

/-- Whether a line begins behind the text. -/
def EndsLine (p : List Char) : Prop := p = [] ∨ ∃ before, p = before ++ ['\n']

/-- Whether a text is a single change of another one that should leave its graph as it is. -/
inductive Variant : List Char → List Char → Prop
  /-- A carriage return in front of a line feed. -/
  | carriageReturn (p q : List Char) : Variant (p ++ '\n' :: q) (p ++ '\r' :: '\n' :: q)
  /-- A comment at the end of a line. -/
  | comment (p : List Char) {note q : List Char} (hnote : '\n' ∉ note)
      (hq : q = [] ∨ (∃ rest, q = '\n' :: rest) ∨ ∃ rest, q = '\r' :: '\n' :: rest) :
      Variant (p ++ q) (p ++ ('#' :: note ++ q))
  /-- An empty line, or an end for the last line. -/
  | newline {p q : List Char} (h : EndsLine p ∨ q = []) : Variant (p ++ q) (p ++ '\n' :: q)
  /-- A blank in front of a word or behind one, or next to another blank. -/
  | blank {c : Char} {p q : List Char} (hc : isBlank c) (hne : c ≠ '\n')
      (h : (∀ x, p.getLast? = some x → isBlank x) ∨
        ∀ x, q.head? = some x → isBlank x ∨ x = '#') : Variant (p ++ q) (p ++ c :: q)
  /-- A copy of a line at the end. -/
  | copy {p line : List Char} (hp : EndsLine p) (hline : line ∈ lineContents p) :
      Variant p (p ++ line)

/-! ## Rows with words -/

/-- The rows of a text that are not empty. -/
def entries (cs : List Char) : List (List String) := (rowsOf cs).filter (!·.isEmpty)

theorem entries_eq (cs : List Char) :
    entries cs = ((lines cs).map wordsOf).filter (!·.isEmpty) := by
  obtain ⟨tail, htail, hrows⟩ := map_wordsOf_lines cs
  rw [hrows, List.filter_append, entries, rowsOf]
  rcases htail with rfl | rfl <;> exact (List.append_nil _).symm

/-- A text is read through its entries alone. -/
theorem parse_eq_ok_iff {text : String} {g : KeyedGraph String} : parse text = .ok g ↔
    (∀ row ∈ entries text.toList, row.length ≤ 2) ∧
      g.keys = (entries text.toList).flatten.eraseDups ∧
      g.edgeKeys = ((entries text.toList).filterMap pair?).eraseDups := by
  have hshort : (∀ row ∈ entries text.toList, row.length ≤ 2) ↔
      ∀ row ∈ rowsOf text.toList, row.length ≤ 2 := by
    refine ⟨fun h row hrow => ?_, fun h row hrow => h row (List.mem_of_mem_filter hrow)⟩
    by_cases hempty : row = []
    · simp [hempty]
    · exact h row (List.mem_filter.2 ⟨hrow, by simpa using hempty⟩)
  have hpairs : (entries text.toList).filterMap pair? = (rowsOf text.toList).filterMap pair? := by
    rw [entries, List.filterMap_filter]
    refine List.filterMap_congr fun row _ => ?_
    cases row <;> rfl
  rw [parse_eq_readRows, readRows_eq_ok_iff, hshort, hpairs, entries,
    List.flatten_filter_not_isEmpty]

/-- The keys of the graph of a text are words of it, so they have no blanks. -/
theorem isBlank_eq_false_of_parse {text k : String} {g : KeyedGraph String}
    (h : parse text = .ok g) (hk : k ∈ g.keys) : ∀ c ∈ k.toList, isBlank c = false := by
  rw [(parse_eq_ok_iff.1 h).2.1, List.mem_eraseDups] at hk
  obtain ⟨row, hrow, hk⟩ := List.mem_flatten.1 hk
  obtain ⟨line, -, rfl⟩ := List.mem_map.1 (List.mem_of_mem_filter hrow)
  rw [wordsOf_eq] at hk
  obtain ⟨w, hw, rfl⟩ := List.mem_map.1 hk
  rw [String.toList_ofList]
  exact isBlank_eq_false_of_mem_words hw

theorem entries_append_newline (p q : List Char) :
    entries (p ++ '\n' :: q) = entries p ++ entries q := by
  rw [entries_eq, lines_append_newline, List.map_append, List.filter_append, entries_eq, entries_eq]

theorem entries_concat_newline (p : List Char) : entries (p ++ ['\n']) = entries p :=
  (entries_append_newline p []).trans (List.append_nil _)

/-- What begins a line has its rows behind those that are there. -/
theorem entries_append (hp : EndsLine p) (q : List Char) :
    entries (p ++ q) = entries p ++ entries q := by
  rcases hp with rfl | ⟨before, rfl⟩
  · rfl
  · rw [List.append_assoc, List.singleton_append, entries_append_newline, entries_concat_newline]

/-! ## A change within a line -/

/-- The part of a text behind its last line feed belongs to the line that goes on behind it. -/
theorem exists_lines_append (p : List Char) : ∃ before l, l <:+ p ∧ '\n' ∉ l ∧
    ∀ rest, lines (p ++ rest) = before ++ lines (l ++ rest) := by
  induction p using List.reverseRecOn with
  | nil => exact ⟨[], [], List.suffix_rfl, List.not_mem_nil, fun rest => rfl⟩
  | append_singleton p c ih =>
    by_cases hc : c = '\n'
    · refine ⟨lines p, [], List.nil_suffix, List.not_mem_nil, fun rest => ?_⟩
      rw [hc, List.append_assoc]
      exact lines_append_newline p rest
    · obtain ⟨before, l, ⟨u, hu⟩, hl, hlines⟩ := ih
      refine ⟨before, l ++ [c], ⟨u, by rw [← List.append_assoc, hu]⟩, ?_, fun rest => ?_⟩
      · simpa [hl] using fun h => hc h.symm
      · rw [List.append_assoc, hlines, List.append_assoc]

/-- The part of a text in front of its first line feed belongs to the line that comes from before. -/
theorem exists_append_lines (q : List Char) : ∃ r after, r <+: q ∧ '\n' ∉ r ∧
    ∀ l, '\n' ∉ l → lines (l ++ q) = (l ++ r) :: after := by
  induction q with
  | nil =>
    refine ⟨[], [], List.prefix_rfl, List.not_mem_nil, fun l hl => ?_⟩
    rw [List.append_nil]
    exact lines_of_notMem hl
  | cons c q ih =>
    by_cases hc : c = '\n'
    · refine ⟨[], lines q, List.nil_prefix, List.not_mem_nil, fun l hl => ?_⟩
      rw [hc, lines_append_newline, lines_of_notMem hl, List.append_nil]
      rfl
    · obtain ⟨r, after, ⟨v, hv⟩, hr, hlines⟩ := ih
      refine ⟨c :: r, after, ⟨v, congrArg (c :: ·) hv⟩, ?_, fun l hl => ?_⟩
      · simpa [hr] using fun h => hc h.symm
      · have := hlines (l ++ [c]) (by simpa [hl] using fun h => hc h.symm)
        simpa using this

/-- A text that is put into a line counts as far as it changes the words of the line. -/
theorem entries_insert (hx : '\n' ∉ x)
    (h : ∀ l r, l <:+ p → r <+: q → '\n' ∉ r → wordsOf (l ++ (x ++ r)) = wordsOf (l ++ r)) :
    entries (p ++ (x ++ q)) = entries (p ++ q) := by
  obtain ⟨before, l, hsuffix, hl, hbefore⟩ := exists_lines_append p
  obtain ⟨r, after, hprefix, hr, hafter⟩ := exists_append_lines q
  have hchanged : lines (l ++ (x ++ q)) = (l ++ (x ++ r)) :: after := by
    rw [← List.append_assoc, hafter _ (by simp [hl, hx]), List.append_assoc]
  rw [entries_eq, entries_eq, hbefore, hbefore, hchanged, hafter l hl, List.map_append,
    List.map_append, List.map_cons, List.map_cons, h l r hsuffix hprefix hr]

theorem entries_insert_blank (hc : isBlank c) (hne : c ≠ '\n')
    (h : (∀ x, p.getLast? = some x → isBlank x) ∨
      ∀ x, q.head? = some x → isBlank x ∨ x = '#') :
    entries (p ++ c :: q) = entries (p ++ q) := by
  refine entries_insert (x := [c]) (by simpa using fun h => hne h.symm) fun l r hl hr _ => ?_
  refine wordsOf_insert_blank hc (h.imp (fun h x hx => h x ?_) fun h x hx => h x ?_)
  · obtain ⟨u, rfl⟩ := hl
    simp [List.getLast?_append, hx]
  · obtain ⟨v, rfl⟩ := hr
    have hx : r.head? = some x := hx
    simp [List.head?_append, hx]

theorem entries_insert_comment {note : List Char} (hnote : '\n' ∉ note)
    (hq : q = [] ∨ (∃ rest, q = '\n' :: rest) ∨ ∃ rest, q = '\r' :: '\n' :: rest) :
    entries (p ++ ('#' :: note ++ q)) = entries (p ++ q) := by
  refine entries_insert (by simpa using hnote) fun l r _ hr hnewline => ?_
  have hend : r = [] ∨ r = ['\r'] := by
    rcases hq with rfl | ⟨rest, rfl⟩ | ⟨rest, rfl⟩
    · exact .inl (List.prefix_nil.1 hr)
    · rcases List.prefix_cons_iff.1 hr with hnil | ⟨r', rfl, -⟩
      · exact .inl hnil
      · simp at hnewline
    · rcases List.prefix_cons_iff.1 hr with hnil | ⟨r', rfl, hr'⟩
      · exact .inl hnil
      · rcases List.prefix_cons_iff.1 hr' with rfl | ⟨r'', rfl, -⟩
        · exact .inr rfl
        · simp at hnewline
  have hwords : wordsOf (l ++ r) = wordsOf l := by
    rcases hend with rfl | rfl
    · rw [List.append_nil]
    · exact wordsOf_append_carriageReturn l
  rw [hwords]
  exact wordsOf_append_comment l (note ++ r)

/-! ## All changes -/

/-- A copy of a line at the end brings its row once more. -/
theorem entries_copy (hp : EndsLine p) (hline : line ∈ lineContents p) :
    entries (p ++ line) = entries p ∨
      ∃ row ∈ entries p, entries (p ++ line) = entries p ++ [row] := by
  have hentries : entries line = [wordsOf line].filter (!·.isEmpty) := by
    rw [entries_eq, lines_of_notMem (newline_notMem hline)]
    rfl
  rw [entries_append hp, hentries]
  by_cases hempty : wordsOf line = []
  · left
    rw [hempty]
    exact List.append_nil _
  · have hkept : (!(wordsOf line).isEmpty) = true := by simpa using hempty
    refine .inr ⟨wordsOf line, List.mem_filter.2 ⟨List.mem_map_of_mem hline, hkept⟩, ?_⟩
    rw [List.filter_cons_of_pos (by exact hkept), List.filter_nil]

/-- A change leaves the entries as they are, or brings one of them once more. -/
theorem Variant.entries_eq (h : Variant cs cs') :
    entries cs' = entries cs ∨ ∃ row ∈ entries cs, entries cs' = entries cs ++ [row] := by
  cases h with
  | carriageReturn p q =>
    -- the line feed behind the carriage return is a blank
    exact .inl (entries_insert_blank (by decide) (by decide) (.inr fun x hx => by
      obtain rfl : '\n' = x := by simpa using hx
      exact .inl (by decide)))
  | comment p hnote hq => exact .inl (entries_insert_comment hnote hq)
  | @newline p q h =>
    refine .inl ?_
    rcases h with hp | rfl
    · rw [entries_append_newline, entries_append hp]
    · rw [entries_concat_newline, List.append_nil]
  | blank hc hne h => exact .inl (entries_insert_blank hc hne h)
  | copy hp hline => exact entries_copy hp hline

/-- A change leaves the graph as it is. -/
theorem Variant.parse_congr {text text' : String} (h : Variant text.toList text'.toList)
    (g : KeyedGraph String) : parse text' = .ok g ↔ parse text = .ok g := by
  rw [parse_eq_ok_iff, parse_eq_ok_iff]
  rcases h.entries_eq with hentries | ⟨row, hrow, hentries⟩
  · rw [hentries]
  · -- words and pairs of a row that is there already are known
    have hkeys : (entries text'.toList).flatten.eraseDups =
        (entries text.toList).flatten.eraseDups := by
      rw [hentries, List.flatten_append]
      exact eraseDups_append_of_subset fun w hw =>
        List.mem_flatten.2 ⟨row, hrow, by simpa using hw⟩
    have hpairs : ((entries text'.toList).filterMap pair?).eraseDups =
        ((entries text.toList).filterMap pair?).eraseDups := by
      rw [hentries, List.filterMap_append]
      exact eraseDups_append_of_subset fun e he =>
        List.mem_filterMap.2 ⟨row, hrow, by simpa using he⟩
    have hshort : (∀ row ∈ entries text'.toList, row.length ≤ 2) ↔
        ∀ row ∈ entries text.toList, row.length ≤ 2 := by
      rw [hentries, List.forall_mem_append, and_iff_left_iff_imp]
      exact fun h row' hrow' => List.mem_singleton.1 hrow' ▸ h row hrow
    rw [hkeys, hpairs, hshort]

/-- Changes, done or undone one after the other, leave the graph as it is. -/
theorem parse_congr {text text' : String}
    (h : Relation.EqvGen Variant text.toList text'.toList) (g : KeyedGraph String) :
    parse text' = .ok g ↔ parse text = .ok g := by
  have hchars : ∀ cs cs', Relation.EqvGen Variant cs cs' →
      (parse (String.ofList cs') = .ok g ↔ parse (String.ofList cs) = .ok g) := by
    intro cs cs' h
    induction h with
    | rel cs cs' h => exact Variant.parse_congr (by simpa using h) g
    | refl cs => exact Iff.rfl
    | symm cs cs' _ ih => exact ih.symm
    | trans cs cs' cs'' _ _ ih ih' => exact ih'.trans ih
  simpa using hchars _ _ h

/-- An edge list is read if no line has more than two words, and the first line with more of them is
the flaw that is told. The graph is the one that all words, as nodes, and the lines of two words, as
edges, make when they are listed. The layout of the text does not matter. -/
theorem parse_exact (text : String) :
    let rows := rowsOf text.toList
    (∀ rows', List.Forall₂ HasWords (lineContents text.toList) rows' ↔ rows' = rows) ∧
      ((∃ g, parse text = .ok g) ↔ ∀ row ∈ rows, row.length ≤ 2) ∧
      ((∀ row ∈ rows, row.length ≤ 2) → ∃ g, parse text = .ok g ∧
        KeyedGraph.ofLists rows.flatten (rows.filterMap pair?) = .ok g ∧
        g.keys = rows.flatten.eraseDups ∧ g.edgeKeys = (rows.filterMap pair?).eraseDups) ∧
      (∀ before row after, rows = before ++ row :: after → (∀ row ∈ before, row.length ≤ 2) →
        2 < row.length → parse text = .error ⟨before.length + 1, row.length⟩) ∧
      ∀ text' : String, Relation.EqvGen Variant text.toList text'.toList →
        ∀ g, parse text' = .ok g ↔ parse text = .ok g := by
  intro rows
  have hgraph : (∀ row ∈ rows, row.length ≤ 2) → ∃ g, parse text = .ok g ∧
      KeyedGraph.ofLists rows.flatten (rows.filterMap pair?) = .ok g ∧
      g.keys = rows.flatten.eraseDups ∧ g.edgeKeys = (rows.filterMap pair?).eraseDups := by
    intro h
    obtain ⟨g, hg, hkeys, hedges⟩ := exists_readRows_eq_ok h 1
    obtain ⟨g', hg', hkeys', hedges'⟩ := ofLists_flatten rows
    obtain rfl := KeyedGraph.eq_of_keys_of_edgeKeys (hkeys'.trans hkeys.symm)
      (hedges'.trans hedges.symm)
    exact ⟨g', (parse_eq_readRows text).trans hg, hg', hkeys, hedges⟩
  refine ⟨fun rows' => ?_, ⟨?_, ?_⟩, hgraph, ?_, fun text' h g => parse_congr h g⟩
  · have hmap : rows = (lineContents text.toList).map wordsOf := rfl
    have hwords : HasWords = fun l row => wordsOf l = row := by
      ext l row
      exact hasWords_iff
    rw [eq_comm, hmap, ← List.forall₂_eq_eq_eq, List.forall₂_map_left_iff, hwords]
  · rintro ⟨g, hg⟩
    rw [parse_eq_readRows, readRows_eq_ok_iff] at hg
    exact hg.1
  · intro h
    obtain ⟨g, hg, -⟩ := hgraph h
    exact ⟨g, hg⟩
  · intro before row after hrows hbefore hrow
    rw [parse_eq_readRows, show rowsOf text.toList = rows from rfl, hrows,
      readRows_eq_error hbefore hrow, Nat.add_comm]

-- a carriage return alone ends no line
example : parse "a b # c\r\n\rb\rc d" = .error ⟨2, 3⟩ := rfl

end FlowBubbles.EdgeList
