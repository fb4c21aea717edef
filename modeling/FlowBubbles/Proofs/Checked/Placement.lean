import FlowBubbles.Proofs.Checked.Reach
import FlowBubbles.Proofs.DominatorTree.Exactness

/-!
# The checked construction of a dominator tree

The checked construction passes over the nodes that the root does not reach, and looks the parents
of the others up in a table. A node has a parent only if it is reached, so the test changes nothing.
Two placed nodes have ranks and parents to read, and the walk from them comes to its end
(`meet?_eq_some`). In the end the children of each node are collected in rows
(`dominatorTree?_eq_some`).
-/

namespace FlowBubbles

/-! ## What is known of a tree -/

namespace Rooted

variable {t : DominatorTree} {n u v : Nat} {rank : NodeMap Nat}

/-- An immediate dominator is a node of the tree, and of smaller rank. -/
theorem of_immediateDominator (h : Rooted n rank t.root t.parent)
    (hu : t.immediateDominator v = some u) :
    (t.parent.get u).isSome ∧ rank.get u < rank.get v := by
  by_cases hroot : v = t.root
  · rw [DominatorTree.immediateDominator, if_pos hroot] at hu
    cases hu
  · rw [DominatorTree.immediateDominator, if_neg hroot] at hu
    exact h.up v u hu hroot

/-- Of all nodes of the tree only the root is its own parent. -/
theorem filter_parent (h : Rooted n rank t.root t.parent) (hv : (t.parent.get v).isSome) :
    (t.parent.get v).filter (· != v) = t.immediateDominator v := by
  by_cases hroot : v = t.root
  · rw [DominatorTree.immediateDominator, if_pos hroot, hroot, h.parent_root]
    simp
  · obtain ⟨p, hp⟩ := Option.isSome_iff_exists.1 hv
    have hne : p ≠ v := fun heq => Nat.lt_irrefl _ (heq ▸ (h.up v p hp hroot).2)
    rw [DominatorTree.immediateDominator, if_neg hroot, hp]
    simp [hne]

end Rooted

namespace Placement

variable {a : Adjacency} {root v : Nat} {order done : List Nat} {p : Placement}

/-- What is placed is reached from the root. -/
theorem Sound.reaches (h : p.Sound a root order done) (hv : (p.parent.get v).isSome) :
    a.Reaches root v :=
  Relation.ReflTransGen.mono (fun _ _ hclimbs => hclimbs.1) _ _ ((h.placed_iff v).1 hv).2

/-- What the root does not reach has no placed predecessor. -/
theorem Sound.meetOfPred_eq_none (h : p.Sound a root order done) (hv : ¬a.Reaches root v) :
    meetOfPred a (.positions order order.length) root p.parent v = none := by
  have hmeets := h.rooted.meetOfPred v
  cases hmeet : meetOfPred a (.positions order order.length) root p.parent v with
  | none => rfl
  | some u =>
    rw [hmeet] at hmeets
    obtain ⟨-, ⟨x, hx, -, hplaced⟩, -⟩ := hmeets
    exact absurd ((h.reaches hplaced).tail (a.mem_pred_iff.1 hx)) hv

end Placement

namespace Checked

/-- The tree built so far with the parents in a table. -/
structure Placement where
  parent : Table (Option Nat)
  order : Array Nat

/-- Moves the later one of two nodes up to its parent. -/
def walk? (rank : Table Nat) (root : Nat) (parent : Table (Option Nat)) (p : Nat × Nat) :
    Option (Nat × Nat) := do
  if (← rank.get? p.2) < (← rank.get? p.1) then return ((← parent.get? p.1).getD root, p.2)
  else return (p.1, (← parent.get? p.2).getD root)

/-- The nearest common ancestor of two nodes, if the walk from them ends. -/
noncomputable def meet? (rank : Table Nat) (root : Nat) (parent : Table (Option Nat)) (u v : Nat) : Option Nat :=
  (loop (fun p => p.1 == p.2) (walk? rank root parent) (u, v)).map Prod.fst

/-- Takes a predecessor `u` of `v` into account, unless it is `v` itself, is not reached, or has no
parent. -/
noncomputable def meetWith? (rank : Table Nat) (root : Nat) (reach : Table Bool) (parent : Table (Option Nat))
    (v : Nat) (found : Option Nat) (u : Nat) : Option (Option Nat) := do
  if u = v then return found
  else if !(← reach.get? u) then return found
  else if (← parent.get? u).isNone then return found
  else match found with
    | none => return some u
    | some x => return some (← meet? rank root parent u x)

namespace Placement

/-- Places a node, unless it is the root, is not reached, or has no placed predecessor. -/
noncomputable def place? (w : View) (rank : Table Nat) (root : Nat) (reach : Table Bool) (p : Placement)
    (v : Nat) : Option Placement := do
  if v = root then return p
  else if !(← reach.get? v) then return p
  else match ← (← w.pred v).foldlM (meetWith? rank root reach p.parent v) none with
    | none => return p
    | some u => return ⟨← p.parent.set? v (some u), p.order.push v⟩

/-- The tree of the root alone; a root outside the graph gives the empty tree. -/
def start? (w : View) (root : Nat) : Option Placement :=
  if root < w.size then do
    let parent ← (Table.replicate w.size none).set? root (some root)
    return ⟨parent, #[root]⟩
  else some ⟨.replicate w.size none, #[]⟩

/-- The tree built so far with its parents in a table of `n` cells. -/
def tabled (n : Nat) (p : FlowBubbles.Placement) : Placement := ⟨⟨n, p.parent⟩, p.order⟩

end Placement

/-- A dominator tree with its parents in a table, and the children of each node in another one. -/
structure Tree where
  root : Nat
  superRoot : Option Nat
  joined : List Nat
  parent : Table (Option Nat)
  children : Table (List Nat)
  order : List Nat
  unreachable : List Nat

/-- Puts a node at the end of the row of its parent. -/
def addChild? (parent : Table (Option Nat)) (rows : Table (List Nat)) (v : Nat) :
    Option (Table (List Nat)) := do
  match (← parent.get? v).filter (· != v) with
  | none => return rows
  | some p => rows.set? p ((← rows.get? p) ++ [v])

/-- The dominator tree for a root, built along an order of nodes. -/
noncomputable def dominatorTree? (w : View) (root : Nat) (order : List Nat) : Option Tree := do
  let reach ← reached? w root
  let rank ← (Table.replicate w.size order.length).number? order
  let placed ← order.foldlM (Placement.place? w rank root reach) (← Placement.start? w root)
  let children ← placed.order.toList.foldlM (addChild? placed.parent) (.replicate w.size [])
  let unreachable ← filter? (fun v => (placed.parent.get? v).map Option.isNone) (List.range w.size)
  return ⟨root, none, [], placed.parent, children, placed.order.toList, unreachable⟩

/-- Whether a checked tree is a tree over `n` nodes that lists its nodes, together with the rows of
its children. -/
structure Tree.Shows (x : Tree) (n : Nat) (t : DominatorTree) : Prop where
  rooted : ∃ rank, Rooted n rank t.root t.parent
  mem_order : ∀ v, v ∈ t.order ↔ (t.parent.get v).isSome
  root : x.root = t.root
  superRoot : x.superRoot = t.superRoot
  joined : x.joined = t.joined
  parent : x.parent = ⟨n, t.parent⟩
  children_size : x.children.size = n
  children : ∀ v, x.children.cells.get v = t.children v
  order : x.order = t.order
  unreachable : x.unreachable = t.unreachable

variable {a : Adjacency} {w : View} {root u v : Nat} {order done rest : List Nat}
  {rank : NodeMap Nat} {parent : NodeMap (Option Nat)} {p : FlowBubbles.Placement}

/-! ## Walking up -/

/-- The ranks and the parents of two placed nodes can be read, and the walk from them ends. -/
theorem meet?_eq_some {n : Nat} (h : Rooted n rank root parent) (hu : (parent.get u).isSome)
    (hv : (parent.get v).isSome) :
    meet? ⟨n, rank⟩ root ⟨n, parent⟩ u v =
      some (FlowBubbles.Placement.meet n rank root parent u v) := by
  have hstep : ∀ p : Nat × Nat, (p.1 == p.2) = false →
      (parent.get p.1).isSome ∧ (parent.get p.2).isSome →
      walk? ⟨n, rank⟩ root ⟨n, parent⟩ p = some (FlowBubbles.Placement.walk rank root parent p) := by
    intro p _ hp
    have hx := h.lt_size p.1 hp.1
    have hy := h.lt_size p.2 hp.2
    simp only [walk?, Table.get?_of_lt hx, Table.get?_of_lt hy, Option.bind_eq_bind, Option.bind_some,
      FlowBubbles.Placement.walk]
    split <;> rfl
  have hkeeps : ∀ p : Nat × Nat, (p.1 == p.2) = false →
      (parent.get p.1).isSome ∧ (parent.get p.2).isSome →
      (parent.get (FlowBubbles.Placement.walk rank root parent p).1).isSome ∧
        (parent.get (FlowBubbles.Placement.walk rank root parent p).2).isSome := by
    intro p hne hp
    obtain ⟨hx, hy, -, -⟩ := h.walk hp.1 hp.2 (by simpa using hne)
    exact ⟨hx, hy⟩
  have hhalted : ∀ p : Nat × Nat, (fun p : Nat × Nat => p.1 == p.2) (id p) = (p.1 == p.2) :=
    fun _ => rfl
  have hloop := loop_eq_some (P := fun p => (parent.get p.1).isSome ∧ (parent.get p.2).isSome)
    hhalted hstep hkeeps ((n + 1) * (n + 1)) (u, v) ⟨hu, hv⟩ (h.halted_walk hu hv)
  rw [meet?]
  exact congrArg (Option.map Prod.fst) hloop

/-! ## Placing the nodes -/

namespace Placement

/-- Of the listed nodes those that are reached and placed are met one after the other. -/
theorem foldlM_meetWith?_eq {n : Nat} (h : Rooted n rank root parent) (reach : NodeMap Bool)
    {us : List Nat} (hlt : ∀ u ∈ us, u < n) (v : Nat) :
    us.foldlM (meetWith? ⟨n, rank⟩ root ⟨n, reach⟩ ⟨n, parent⟩ v) none =
      some ((us.filter reach.get).foldl (FlowBubbles.Placement.meetWith n rank root parent v)
        none) := by
  rw [List.foldl_filter]
  refine (foldlM_eq_some (e := id) (P := fun rest found =>
    (∀ u ∈ rest, u < n) ∧ ∀ x ∈ found, (parent.get x).isSome)
    (fun u rest found hfound => ?_) us none ⟨hlt, by simp⟩).1
  obtain ⟨hrest, hfound⟩ := hfound
  obtain ⟨hu, hrest⟩ := List.forall_mem_cons.1 hrest
  by_cases hself : u = v
  · refine ⟨?_, hrest, by simpa [FlowBubbles.Placement.meetWith, hself] using hfound⟩
    simp [meetWith?, FlowBubbles.Placement.meetWith, hself]
  · cases hreach : reach.get u with
    | false => exact ⟨by simp [meetWith?, Table.get?_of_lt hu, hself, hreach], hrest, hfound⟩
    | true =>
      cases hplaced : parent.get u with
      | none =>
        refine ⟨?_, hrest, by simpa [FlowBubbles.Placement.meetWith, hplaced] using hfound⟩
        simp [meetWith?, FlowBubbles.Placement.meetWith, Table.get?_of_lt hu, hself, hplaced, hreach]
      | some y =>
        have hsome : (parent.get u).isSome := by rw [hplaced]; rfl
        cases found with
        | none =>
          refine ⟨?_, hrest, by simp [FlowBubbles.Placement.meetWith, hself, hplaced]⟩
          simp [meetWith?, FlowBubbles.Placement.meetWith, Table.get?_of_lt hu, hself, hplaced, hreach]
        | some x =>
          have hx : (parent.get x).isSome := hfound x rfl
          have hmeet := (h.meet hsome hx).1
          refine ⟨?_, hrest, by simpa [FlowBubbles.Placement.meetWith, hself, hplaced] using hmeet⟩
          simp [meetWith?, FlowBubbles.Placement.meetWith, Table.get?_of_lt hu, hself, hplaced, hreach,
            meet?_eq_some h hsome hx]

/-- What has a parent is reached, so that the predecessors that have parents are met one after the
other. -/
theorem foldlM_meetWith? (h : p.Sound a root order done) (hroot : root < a.size) (v : Nat) :
    (a.pred v).foldlM (meetWith? ⟨a.size, .positions order order.length⟩ root
        ⟨a.size, a.reached root⟩ ⟨a.size, p.parent⟩ v) none =
      some (FlowBubbles.Placement.meetOfPred a (.positions order order.length) root p.parent v) := by
  have hlt : ∀ u ∈ a.pred v, u < a.size := fun u hu => (a.lt_of_mem_succ (a.mem_pred_iff.1 hu)).1
  have hskip : ∀ found u, (a.reached root).get u = false →
      FlowBubbles.Placement.meetWith a.size (.positions order order.length) root p.parent v found
        u = found := by
    intro found u hreach
    have hnone : p.parent.get u = none := by
      rw [← Option.not_isSome_iff_eq_none]
      intro hplaced
      simp [(Adjacency.get_reached_iff hroot).2 (h.reaches hplaced)] at hreach
    simp [FlowBubbles.Placement.meetWith, hnone]
  rw [foldlM_meetWith?_eq h.rooted (a.reached root) hlt, List.foldl_filter,
    FlowBubbles.Placement.meetOfPred_eq_foldl]
  congr 2
  funext found u
  split
  · rfl
  · rename_i hreach
    exact (hskip found u (by simpa using hreach)).symm

theorem place?_eq_some (hw : w.Shows a) (h : p.Sound a root order done) (hroot : root < a.size)
    (hv : v < a.size) :
    (tabled a.size p).place? w ⟨a.size, .positions order order.length⟩ root ⟨a.size, a.reached root⟩
        v =
      some (tabled a.size
        (FlowBubbles.Placement.place a (.positions order order.length) root p v)) := by
  rw [place?, FlowBubbles.Placement.place, Table.get?_of_lt hv, hw.pred v hv]
  by_cases hself : v = root
  · simp [hself]
  · cases hreach : (a.reached root).get v with
    | false =>
      have hnot : ¬a.Reaches root v := fun hr => by
        simp [(Adjacency.get_reached_iff hroot).2 hr] at hreach
      simp [hself, h.meetOfPred_eq_none hnot]
    | true =>
      simp only [hself, if_false, Option.bind_eq_bind, Option.bind_some, Bool.not_true,
        Bool.false_eq_true, tabled, foldlM_meetWith? h hroot v, Table.set?_of_lt hv]
      cases FlowBubbles.Placement.meetOfPred a (.positions order order.length) root p.parent v <;> rfl

theorem start?_eq_some (hw : w.Shows a) (hroot : root < a.size) :
    start? w root = some (tabled a.size (FlowBubbles.Placement.start a root)) := by
  rw [start?, FlowBubbles.Placement.start, hw.size, if_pos hroot, if_pos hroot,
    Table.replicate, Table.set?_of_lt hroot]
  rfl

/-- All nodes of an order are dealt with. -/
theorem foldlM_place? (hw : w.Shows a) (h : a.Suits root order) :
    order.foldlM
        (place? w ⟨a.size, .positions order order.length⟩ root ⟨a.size, a.reached root⟩)
        (tabled a.size (.start a root)) =
      some (tabled a.size (order.foldl
        (.place a (.positions order order.length) root) (.start a root))) := by
  have hroot := h.lt_size root h.root_mem
  refine (foldlM_eq_some (e := tabled a.size) (P := fun rest p =>
    ∃ done, order = done ++ rest ∧ p.Sound a root order done) (fun v rest p hp => ?_) order _
    ⟨[], rfl, FlowBubbles.Placement.sound_start h⟩).1
  obtain ⟨done, horder, hp⟩ := hp
  have hv : v < a.size := h.lt_size v (by simp [horder])
  exact ⟨place?_eq_some hw hp hroot hv, done ++ [v], by simp [horder],
    FlowBubbles.Placement.sound_place hp h horder⟩

end Placement

/-! ## The children -/

/-- Each listed node is put into the row of its parent. -/
theorem foldlM_addChild? {n : Nat} {f : Nat → Option Nat} {vs : List Nat}
    (hf : ∀ v ∈ vs, v < n ∧ (parent.get v).filter (· != v) = f v ∧ ∀ p ∈ f v, p < n)
    (rows : NodeMap (List Nat)) :
    ∃ rows' : NodeMap (List Nat),
      vs.foldlM (addChild? ⟨n, parent⟩) ⟨n, rows⟩ = some ⟨n, rows'⟩ ∧
      ∀ u, rows'.get u = rows.get u ++ vs.filter (f · == some u) := by
  induction vs generalizing rows with
  | nil => exact ⟨rows, rfl, by simp⟩
  | cons v vs ih =>
    obtain ⟨⟨hv, hparent, hlt⟩, hvs⟩ := List.forall_mem_cons.1 hf
    rw [List.foldlM_cons, addChild?, Table.get?_of_lt hv]
    cases hp : f v with
    | none =>
      obtain ⟨rows', hfold, hget⟩ := ih hvs rows
      exact ⟨rows', by simpa [hparent, hp] using hfold, by simpa [hp] using hget⟩
    | some p =>
      have hpn : p < n := hlt p hp
      obtain ⟨rows', hfold, hget⟩ := ih hvs (rows.set p (rows.get p ++ [v]))
      refine ⟨rows', ?_, fun u => ?_⟩
      · simpa [hparent, hp, Table.get?_of_lt hpn, Table.set?_of_lt hpn] using hfold
      · rw [hget, NodeMap.get_set]
        by_cases hu : u = p
        · simp [hu, hp]
        · simp [hu, hp, Ne.symm hu]

/-- The construction of the tree along an order that suits the root succeeds. -/
theorem dominatorTree?_eq_some (hw : w.Shows a) (h : a.Suits root order) :
    ∃ x, dominatorTree? w root order = some x ∧ x.Shows a.size (a.dominatorTree root order) := by
  have hroot := h.lt_size root h.root_mem
  set t := a.dominatorTree root order with ht
  have hrooted : Rooted a.size (.positions order order.length) root t.parent := h.rooted
  have hchild : ∀ v ∈ t.order, v < a.size ∧
      (t.parent.get v).filter (· != v) = t.immediateDominator v ∧
      ∀ p ∈ t.immediateDominator v, p < a.size := by
    intro v hv
    have hsome : (t.parent.get v).isSome := (h.sound.mem_order v).1 hv
    exact ⟨hrooted.lt_size v hsome, hrooted.filter_parent hsome, fun p hp =>
      hrooted.lt_size p (hrooted.of_immediateDominator hp).1⟩
  obtain ⟨rows, hrows, hget⟩ := foldlM_addChild? hchild (.const [])
  have hunreachable : filter? (fun v => ((⟨a.size, t.parent⟩ : Table _).get? v).map Option.isNone)
      (List.range a.size) = some t.unreachable :=
    filter?_eq_some fun v hv => by rw [Table.get?_of_lt (List.mem_range.1 hv)]; rfl
  refine ⟨⟨root, none, [], ⟨a.size, t.parent⟩, ⟨a.size, rows⟩, t.order, t.unreachable⟩, ?_,
    ⟨⟨_, hrooted⟩, h.sound.mem_order, rfl, rfl, rfl, rfl, rfl, fun v => ?_, rfl, rfl⟩⟩
  · simp only [dominatorTree?, reached?_eq_some hw, hw.size, Option.bind_eq_bind, Option.bind_some,
      Table.number?_replicate h.lt_size, Placement.start?_eq_some hw hroot,
      Placement.foldlM_place? hw h]
    change (t.order.foldlM (addChild? ⟨a.size, t.parent⟩) ⟨a.size, .const []⟩).bind _ = _
    rw [hrows, Option.bind_some]
    change (filter? (fun v => ((⟨a.size, t.parent⟩ : Table _).get? v).map Option.isNone)
      (List.range a.size)).bind _ = _
    rw [hunreachable]
    rfl
  · rw [hget, NodeMap.get_const, List.nil_append]
    rfl

end Checked

end FlowBubbles
