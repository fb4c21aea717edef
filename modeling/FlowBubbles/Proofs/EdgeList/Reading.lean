import FlowBubbles.Proofs.EdgeList.Lines
import FlowBubbles.Proofs.KeyedGraph.Growth

/-!
# The graph of an edge list

The words of the lines, one row for each line, decide what a text is read as. Rows of at most two
words are read one after the other: the keys of the graph grow by all words of the row and its edges
by the pair, if the row is one (`readRows_append`). So the nodes may as well be put into the graph
first and joined afterwards (`readRows_eq_ok_iff`).
-/

namespace FlowBubbles.EdgeList

open Text

variable {number : Nat} {g : KeyedGraph String} {row : List String} {rows : List (List String)}

/-- The pair of keys that a row of words joins, if it is an edge. -/
def pair? : List String → Option (String × String)
  | [source, target] => some (source, target)
  | _ => none

theorem pair?_eq_some_iff {p : String × String} : pair? row = some p ↔ row = [p.1, p.2] := by
  fun_cases pair? row with
  | case1 source target => simp [Prod.ext_iff]
  | case2 row hrow => simpa using fun heq : row = [p.1, p.2] => hrow _ _ heq

/-! ## Reading one row -/

/-- A row of at most two words is read: its words become keys, and its pair is joined. -/
theorem readLine_of_length_le (h : row.length ≤ 2) (number : Nat) (g : KeyedGraph String) :
    ∃ g', readLine number g row = .ok g' ∧ g'.keys = (g.keys ++ row).eraseDups ∧
      (g.edgeKeys.Nodup → g'.edgeKeys = (g.edgeKeys ++ (pair? row).toList).eraseDups) := by
  match row, h with
  | [], _ =>
    exact ⟨g, rfl, (eraseDups_append_nil g.nodup_keys).symm,
      fun hnodup => (eraseDups_append_nil hnodup).symm⟩
  | [node], _ =>
    refine ⟨_, rfl, g.keys_addNode node, fun hnodup => ?_⟩
    rw [g.edgeKeys_addNode node]
    exact (eraseDups_append_nil hnodup).symm
  | [source, target], _ =>
    refine ⟨_, rfl, g.keys_addEdge source target, fun hnodup => ?_⟩
    rw [g.edgeKeys_addEdge source target]
    exact (eraseDups_append_singleton hnodup _).symm

theorem readLine_of_lt_length (h : 2 < row.length) (number : Nat) (g : KeyedGraph String) :
    readLine number g row = .error ⟨number, row.length⟩ := by
  match row, h with
  | _ :: _ :: _ :: _, _ => rfl

/-! ## Reading rows -/

/-- Adds what rows of words say, from the row with the given number on, up to the first flaw. -/
def readRows : Nat → KeyedGraph String → List (List String) → Except Flaw (KeyedGraph String)
  | _, g, [] => .ok g
  | number, g, row :: rows =>
    match readLine number g row with
    | .ok g => readRows (number + 1) g rows
    | .error flaw => .error flaw

theorem readLines_eq_readRows (number : Nat) (g : KeyedGraph String) (ls : List (List Char)) :
    readLines number g ls = readRows number g (ls.map wordsOf) := by
  induction ls generalizing number g with
  | nil => rfl
  | cons line ls ih =>
    rw [readLines, List.map_cons, readRows]
    cases readLine number g (wordsOf line) with
    | ok g' => exact ih (number + 1) g'
    | error flaw => rfl

/-- Rows of at most two words are read, and then those behind them. -/
theorem readRows_append (h : ∀ row ∈ rows, row.length ≤ 2) (number : Nat) (g : KeyedGraph String) :
    ∃ g', g'.keys = (g.keys ++ rows.flatten).eraseDups ∧
      (g.edgeKeys.Nodup → g'.edgeKeys = (g.edgeKeys ++ rows.filterMap pair?).eraseDups) ∧
      ∀ rest, readRows number g (rows ++ rest) = readRows (number + rows.length) g' rest := by
  induction rows generalizing number g with
  | nil =>
    exact ⟨g, (eraseDups_append_nil g.nodup_keys).symm,
      fun hnodup => (eraseDups_append_nil hnodup).symm, fun rest => rfl⟩
  | cons row rows ih =>
    obtain ⟨hrow, hrows⟩ := List.forall_mem_cons.1 h
    obtain ⟨g₁, hread, hkeys₁, hedges₁⟩ := readLine_of_length_le hrow number g
    obtain ⟨g', hkeys, hedges, hrest⟩ := ih hrows (number + 1) g₁
    refine ⟨g', ?_, fun hnodup => ?_, fun rest => ?_⟩
    · rw [hkeys, hkeys₁, eraseDups_eraseDups_append, List.flatten_cons, List.append_assoc]
    · have hpairs : (row :: rows).filterMap pair? = (pair? row).toList ++ rows.filterMap pair? := by
        cases hpair : pair? row <;> simp [hpair]
      rw [hedges (hedges₁ hnodup ▸ nodup_eraseDups _), hedges₁ hnodup,
        eraseDups_eraseDups_append, hpairs, List.append_assoc]
    · rw [List.cons_append, readRows, hread, List.length_cons, Nat.add_comm rows.length,
        ← Nat.add_assoc]
      exact hrest rest

/-- Rows of at most two words have a graph, the one of all words as nodes and of the pairs. -/
theorem exists_readRows_eq_ok (h : ∀ row ∈ rows, row.length ≤ 2) (number : Nat) :
    ∃ g, readRows number .empty rows = .ok g ∧
      g.keys = rows.flatten.eraseDups ∧ g.edgeKeys = (rows.filterMap pair?).eraseDups := by
  obtain ⟨g, hkeys, hedges, hread⟩ := readRows_append h number .empty
  exact ⟨g, List.append_nil rows ▸ hread [], hkeys, hedges List.nodup_nil⟩

/-- The first row of more than two words is a flaw. -/
theorem readRows_eq_error {before after : List (List String)}
    (hbefore : ∀ row ∈ before, row.length ≤ 2) (hrow : 2 < row.length) (number : Nat)
    (g : KeyedGraph String) :
    readRows number g (before ++ row :: after) = .error ⟨number + before.length, row.length⟩ := by
  obtain ⟨g', -, -, hread⟩ := readRows_append hbefore number g
  rw [hread, readRows, readLine_of_lt_length hrow]

/-- Rows with more than two words begin with a first one. -/
theorem exists_first_long (h : ¬∀ row ∈ rows, row.length ≤ 2) :
    ∃ before row after, rows = before ++ row :: after ∧
      (∀ row ∈ before, row.length ≤ 2) ∧ 2 < row.length := by
  have hfind : (rows.find? fun row => decide (2 < row.length)).isSome := by
    simpa using h
  obtain ⟨row, hrow⟩ := Option.isSome_iff_exists.1 hfind
  obtain ⟨hlong, before, after, rfl, hbefore⟩ := List.find?_eq_some_iff_append.1 hrow
  exact ⟨before, row, after, rfl, by simpa using hbefore, of_decide_eq_true hlong⟩

theorem readRows_eq_ok_iff : readRows number .empty rows = .ok g ↔
    (∀ row ∈ rows, row.length ≤ 2) ∧
      g.keys = rows.flatten.eraseDups ∧ g.edgeKeys = (rows.filterMap pair?).eraseDups := by
  constructor
  · intro hg
    by_cases h : ∀ row ∈ rows, row.length ≤ 2
    · obtain ⟨g', hg', hgraph⟩ := exists_readRows_eq_ok h number
      obtain rfl : g' = g := Except.ok.inj (hg'.symm.trans hg)
      exact ⟨h, hgraph⟩
    · obtain ⟨before, row, after, rfl, hbefore, hrow⟩ := exists_first_long h
      cases (readRows_eq_error hbefore hrow number .empty).symm.trans hg
  · rintro ⟨h, hkeys, hedges⟩
    obtain ⟨g', hg', hkeys', hedges'⟩ := exists_readRows_eq_ok h number
    rw [hg', KeyedGraph.eq_of_keys_of_edgeKeys (hkeys'.trans hkeys.symm)
      (hedges'.trans hedges.symm)]

/-- The graph of the rows is the one that is built from all their words and then their pairs. -/
theorem ofLists_flatten (rows : List (List String)) :
    ∃ g, KeyedGraph.ofLists rows.flatten (rows.filterMap pair?) = .ok g ∧
      g.keys = rows.flatten.eraseDups ∧ g.edgeKeys = (rows.filterMap pair?).eraseDups := by
  refine KeyedGraph.ofLists_of_mem fun p hp => ?_
  obtain ⟨row, hrow, hpair⟩ := List.mem_filterMap.1 hp
  rw [pair?_eq_some_iff] at hpair
  exact ⟨List.mem_flatten.2 ⟨row, hrow, by simp [hpair]⟩,
    List.mem_flatten.2 ⟨row, hrow, by simp [hpair]⟩⟩

/-! ## Reading a text -/

/-- The words of the lines of a text. -/
def rowsOf (cs : List Char) : List (List String) := (lineContents cs).map wordsOf

/-- An empty line at the end of a text says nothing. -/
theorem readRows_append_nil (rows : List (List String)) (number : Nat) (g : KeyedGraph String) :
    readRows number g (rows ++ [[]]) = readRows number g rows := by
  induction rows generalizing number g with
  | nil => rfl
  | cons row rows ih =>
    rw [List.cons_append, readRows, readRows]
    cases readLine number g row with
    | ok g' => exact ih (number + 1) g'
    | error flaw => rfl

/-- A text is read row by row. -/
theorem parse_eq_readRows (text : String) :
    parse text = readRows 1 .empty (rowsOf text.toList) := by
  obtain ⟨tail, htail, hrows⟩ := map_wordsOf_lines text.toList
  rw [parse, readLines_eq_readRows, hrows]
  rcases htail with rfl | rfl
  · rw [List.append_nil]
    rfl
  · exact readRows_append_nil _ 1 .empty

end FlowBubbles.EdgeList
