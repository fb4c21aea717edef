import FlowBubbles.Proofs.Checked.Placement

/-!
# Checked queries of a tree

Queries take any number for a node. A number outside the tables is no node of the tree, so that it
has no parent and no children (`Tree.Shows.immediateDominator`, `Tree.Shows.childrenOf`). The way up
from a node of the tree is a loop that ends at the root, since ranks fall along it
(`Tree.Shows.dominators?`). There are no fewer nodes than super-roots. So every query is answered,
with the answer of the tree (`Tree.Shows.answers`).
-/

namespace FlowBubbles.Checked

namespace Tree

/-! ## The queries -/

section

variable (x : Tree)

/-- What the table of parents has for a node. -/
def parentOf (v : Nat) : Option Nat := (x.parent.get? v).join

/-- Whether `v` is in the tree. -/
def contains (v : Nat) : Bool := (x.parentOf v).isSome

/-- The immediate dominator of a node. The root has none. -/
def immediateDominator (v : Nat) : Option Nat := if v = x.root then none else x.parentOf v

/-- Whether `v` is the super-root of the tree. -/
def isSuperRoot (v : Nat) : Bool := x.superRoot == some v

/-- The entries below the super-root, or the root alone if there is no super-root. -/
def entries : List Nat := if x.superRoot.isSome then x.joined else [x.root]

/-- Takes the next node on the way up. -/
def climb (s : Option Nat × List Nat) : Option Nat × List Nat :=
  match s.1 with
  | none => s
  | some v => (x.immediateDominator v, s.2 ++ [v])

/-- The dominators of a node, if the way up from it ends. -/
noncomputable def dominators? (v : Nat) : Option (List Nat) :=
  (loop (·.1.isNone) (fun s => some (x.climb s)) (if x.contains v then some v else none, [])).map
    Prod.snd

/-- Whether `u` dominates `v`. -/
noncomputable def dominates? (u v : Nat) : Option Bool :=
  if x.contains u && x.contains v then (x.dominators? v).map (·.contains u) else some false

/-- Whether `u` dominates `v` and is another node. -/
noncomputable def strictlyDominates? (u v : Nat) : Option Bool :=
  if u = v then some false else x.dominates? u v

/-- The distance of a node from the root. -/
noncomputable def depth? (v : Nat) : Option (Option Nat) :=
  if x.contains v then (x.dominators? v).map fun l => some (l.length - 1) else some none

/-- The nodes whose immediate dominator is `v`, by rank. -/
def childrenOf (v : Nat) : List Nat := (x.children.get? v).getD []

/-- The nodes by rank, without the super-root. -/
def nodes : List Nat := x.order.filter (!x.isSuperRoot ·)

/-- The edges from immediate dominators to nodes, by the rank of the node. -/
def edgesWithSuperRoot : List Edge :=
  x.order.filterMap fun v => (x.immediateDominator v).map (⟨·, v⟩)

/-- The edges of the tree without those of the super-root. -/
def edges : List Edge := x.edgesWithSuperRoot.filter (!x.isSuperRoot ·.source)

/-- The number of nodes without the super-root. -/
def size? : Option Nat := sub? x.order.length (if x.superRoot.isSome then 1 else 0)

/-- Whether the tree has no nodes besides a super-root. -/
def isEmpty? : Option Bool := x.size?.map (· == 0)

end

/-- Whether a checked tree answers every query, about any numbers, as a tree does. -/
structure Answers (x : Tree) (t : DominatorTree) : Prop where
  root : x.root = t.root
  superRoot : x.superRoot = t.superRoot
  isSuperRoot : ∀ v, x.isSuperRoot v = t.isSuperRoot v
  entries : x.entries = t.entries
  contains : ∀ v, x.contains v = t.contains v
  immediateDominator : ∀ v, x.immediateDominator v = t.immediateDominator v
  dominators : ∀ v, x.dominators? v = some (t.dominators v)
  dominates : ∀ u v, x.dominates? u v = some (t.dominates u v)
  strictlyDominates : ∀ u v, x.strictlyDominates? u v = some (t.strictlyDominates u v)
  depth : ∀ v, x.depth? v = some (t.depth v)
  children : ∀ v, x.childrenOf v = t.children v
  nodes : x.nodes = t.nodes
  edgesWithSuperRoot : x.edgesWithSuperRoot = t.edgesWithSuperRoot
  edges : x.edges = t.edges
  unreachable : x.unreachable = t.unreachable
  size : x.size? = some t.size
  isEmpty : x.isEmpty? = some t.isEmpty

namespace Shows

variable {x : Tree} {n : Nat} {t : DominatorTree} {v : Nat}

/-! ## The nodes of the tree -/

theorem parentOf (h : x.Shows n t) (v : Nat) : x.parentOf v = t.parent.get v := by
  obtain ⟨rank, hrooted⟩ := h.rooted
  rw [Tree.parentOf, h.parent]
  by_cases hv : v < n
  · rw [Table.get?_of_lt hv]
    rfl
  · have houtside : (⟨n, t.parent⟩ : Table (Option Nat)).get? v = none := if_neg hv
    have hnone : t.parent.get v = none := by
      rw [← Option.not_isSome_iff_eq_none]
      exact mt (hrooted.lt_size v) hv
    rw [houtside, hnone]
    rfl

theorem contains (h : x.Shows n t) (v : Nat) : x.contains v = t.contains v := by
  rw [Tree.contains, h.parentOf, DominatorTree.contains]

theorem immediateDominator (h : x.Shows n t) (v : Nat) :
    x.immediateDominator v = t.immediateDominator v := by
  rw [Tree.immediateDominator, h.root, h.parentOf, DominatorTree.immediateDominator]

theorem childrenOf (h : x.Shows n t) (v : Nat) : x.childrenOf v = t.children v := by
  obtain ⟨rank, hrooted⟩ := h.rooted
  by_cases hv : v < n
  · have hread : x.children.get? v = some (x.children.cells.get v) :=
      Table.get?_of_lt (h.children_size.symm ▸ hv)
    rw [Tree.childrenOf, hread, Option.getD_some, h.children]
  · have houtside : x.children.get? v = none := if_neg (h.children_size.symm ▸ hv)
    have hnil : t.children v = [] := by
      refine List.filter_eq_nil_iff.2 fun w _ hw => hv ?_
      exact hrooted.lt_size v (hrooted.of_immediateDominator (eq_of_beq hw)).1
    rw [Tree.childrenOf, houtside, hnil]
    rfl

/-! ## The way up -/

/-- The loop that follows the way up from a node of the tree ends. -/
theorem loop_climb (h : x.Shows n t) {rank : NodeMap Nat} (hrooted : Rooted n rank t.root t.parent)
    {k : Nat} (hv : (t.parent.get v).isSome)
    (hk : Rooted.placedBelow n rank t.parent (rank.get v) < k) (l : List Nat) :
    loop (·.1.isNone) (fun s => some (x.climb s)) (some v, l) = some (none, l ++ t.climb k v) := by
  induction k generalizing v l with
  | zero => exact absurd hk (Nat.not_lt_zero _)
  | succ k ih =>
    have hstep : x.climb (some v, l) = (t.immediateDominator v, l ++ [v]) :=
      congrArg (·, l ++ [v]) (h.immediateDominator v)
    refine loop_of_step rfl (congrArg some hstep) ?_
    rw [DominatorTree.climb]
    cases hdom : t.immediateDominator v with
    | none => exact loop_of_halted rfl
    | some u =>
      obtain ⟨hu, hlt⟩ := hrooted.of_immediateDominator hdom
      have hbelow := hrooted.placedBelow_lt hu hlt
      rw [ih hu (by omega), List.append_assoc]
      rfl

theorem dominators? (h : x.Shows n t) (v : Nat) : x.dominators? v = some (t.dominators v) := by
  obtain ⟨rank, hrooted⟩ := h.rooted
  rw [Tree.dominators?, h.contains, DominatorTree.dominators]
  by_cases hv : t.contains v = true
  · have hlisted : Rooted.placedBelow n rank t.parent (rank.get v) < t.order.length :=
      Rooted.placedBelow_lt_length (fun y hy => (h.mem_order y).2 hy) hv
    rw [if_pos hv, if_pos hv, h.loop_climb hrooted hv hlisted]
    rfl
  · rw [if_neg hv, if_neg hv, loop_of_halted rfl]
    rfl

/-! ## All queries -/

/-- A tree has a root, so that there are no fewer nodes than super-roots. -/
theorem size? (h : x.Shows n t) : x.size? = some t.size := by
  obtain ⟨rank, hrooted⟩ := h.rooted
  have hpos : 0 < t.order.length :=
    List.length_pos_of_mem ((h.mem_order t.root).2 (by rw [hrooted.parent_root]; rfl))
  rw [Tree.size?, h.superRoot, h.order, DominatorTree.size]
  refine sub?_of_le ?_
  split
  · exact hpos
  · exact Nat.zero_le _

/-- Every query is answered, about any numbers. -/
theorem answers (h : x.Shows n t) : x.Answers t := by
  have hsuper : ∀ v, x.isSuperRoot v = t.isSuperRoot v := fun v => by
    rw [Tree.isSuperRoot, h.superRoot, DominatorTree.isSuperRoot]
  have hdominates : ∀ u v, x.dominates? u v = some (t.dominates u v) := fun u v => by
    rw [Tree.dominates?, h.contains, h.contains, h.dominators?, DominatorTree.dominates]
    cases t.contains u && t.contains v <;> rfl
  have hedges : x.edgesWithSuperRoot = t.edgesWithSuperRoot := by
    simp only [Tree.edgesWithSuperRoot, h.order, h.immediateDominator,
      DominatorTree.edgesWithSuperRoot]
  refine ⟨h.root, h.superRoot, hsuper, ?_, h.contains, h.immediateDominator, h.dominators?,
    hdominates, fun u v => ?_, fun v => ?_, h.childrenOf, ?_, hedges, ?_, h.unreachable, h.size?, ?_⟩
  · rw [Tree.entries, h.superRoot, h.joined, h.root, DominatorTree.entries]
  · rw [Tree.strictlyDominates?, hdominates, DominatorTree.strictlyDominates]
    by_cases huv : u = v <;> simp [huv]
  · rw [Tree.depth?, h.contains, h.dominators?, DominatorTree.depth]
    split <;> rfl
  · simp only [Tree.nodes, h.order, hsuper, DominatorTree.nodes]
  · simp only [Tree.edges, hedges, hsuper, DominatorTree.edges]
  · rw [Tree.isEmpty?, h.size?, DominatorTree.isEmpty, Option.map_some]

end Shows

end Tree

end FlowBubbles.Checked
