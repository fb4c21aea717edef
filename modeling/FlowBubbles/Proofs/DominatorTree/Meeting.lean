import FlowBubbles.Proofs.Checked.Placement
import Mathlib.Data.Set.Card
import Mathlib.Order.Lattice

/-!
# Two nodes that walk up until they meet

The placed nodes of a tree, ordered by ancestry, are a semilattice: the walk from two of them ends
at their nearest common ancestor (`Rooted.semilattice`). Each step leaves one node behind that is an
ancestor of one of the two only, and no node on the way stands above the common ancestors, so the
walk takes as many steps as there are such nodes (`Rooted.walkEnds`). What a list of predecessors
has in common is settled by its members (`Rooted.foldl_meetWith_congr`), and so is the tree that is
built from them (`Adjacency.dominatorTree_congr`).
-/

namespace FlowBubbles

/-- Whether `w` is the nearest common ancestor of `u` and `v`: all their common ancestors are
ancestors of `w`, which is one of them. -/
structure NearestCommonAncestor (parent : NodeMap (Option Nat)) (u v w : Nat) : Prop where
  left : Ancestor parent w u
  right : Ancestor parent w v
  nearest : ∀ d, Ancestor parent d u → Ancestor parent d v → Ancestor parent d w

/-- The nodes that are ancestors of one of two nodes and not of the other. -/
def apart (parent : NodeMap (Option Nat)) (u v : Nat) : Set Nat :=
  {d | ¬(Ancestor parent d u ↔ Ancestor parent d v)}

/-- Whether the walk from `u` and `v` ends at `w` after `k` steps: the two nodes differ until then,
and then both are `w`. -/
structure WalkEnds (rank : NodeMap Nat) (root : Nat) (parent : NodeMap (Option Nat))
    (u v k w : Nat) : Prop where
  differ : ∀ j < k, ((Placement.walk rank root parent)^[j] (u, v)).1 ≠
    ((Placement.walk rank root parent)^[j] (u, v)).2
  met : (Placement.walk rank root parent)^[k] (u, v) = (w, w)

/-- A placed node. -/
@[ext] structure PlacedNode (parent : NodeMap (Option Nat)) where
  node : Nat
  placed : (parent.get node).isSome

variable {size root d p u v w : Nat} {rank : NodeMap Nat} {parent : NodeMap (Option Nat)}
  {us us' : List Nat} {found found' : Option Nat}

/-! ## Nearest common ancestors -/

theorem nearestCommonAncestor_iff :
    NearestCommonAncestor parent u v w ↔
      ∀ d, Ancestor parent d w ↔ Ancestor parent d u ∧ Ancestor parent d v := by
  constructor
  · intro h d
    exact ⟨fun hd => ⟨h.left.trans hd, h.right.trans hd⟩, fun hd => h.nearest d hd.1 hd.2⟩
  · intro h
    have hw := (h w).1 (.refl w)
    exact ⟨hw.1, hw.2, fun d hu hv => (h d).2 ⟨hu, hv⟩⟩

namespace Rooted

/-- Placed nodes are told apart by their ancestors. -/
theorem eq_of_ancestor_iff (h : Rooted size rank root parent) (hu : (parent.get u).isSome)
    (hv : (parent.get v).isSome) (huv : ∀ d, Ancestor parent d u ↔ Ancestor parent d v) : u = v :=
  h.ancestor_antisymm hu hv ((huv u).1 (.refl u)) ((huv v).2 (.refl v))

/-- The walk from two placed nodes gives their nearest common ancestor, which is the only one. -/
theorem nearestCommonAncestor_iff_eq_meet (h : Rooted size rank root parent)
    (hu : (parent.get u).isSome) (hv : (parent.get v).isSome) :
    NearestCommonAncestor parent u v w ↔ w = Placement.meet size rank root parent u v := by
  obtain ⟨hmeet, hiff⟩ := h.meet hu hv
  constructor
  · intro hw
    refine h.eq_of_ancestor_iff (h.of_ancestor hu hw.left).1 hmeet fun d => ?_
    rw [hiff, nearestCommonAncestor_iff.1 hw]
  · rintro rfl
    exact nearestCommonAncestor_iff.2 hiff

/-- The placed nodes under ancestry. The meet of two of them is where the walk ends. -/
abbrev semilattice (h : Rooted size rank root parent) : SemilatticeInf (PlacedNode parent) where
  le u v := Ancestor parent u.node v.node
  le_refl u := .refl u.node
  le_trans _ _ _ huv hvw := hvw.trans huv
  le_antisymm u v huv hvu := PlacedNode.ext (h.ancestor_antisymm u.placed v.placed huv hvu)
  inf u v := ⟨Placement.meet size rank root parent u.node v.node, (h.meet u.placed v.placed).1⟩
  inf_le_left u v := (((h.meet u.placed v.placed).2 _).1 (.refl _)).1
  inf_le_right u v := (((h.meet u.placed v.placed).2 _).1 (.refl _)).2
  le_inf u v w huv huw := ((h.meet v.placed w.placed).2 u.node).2 ⟨huv, huw⟩

theorem meet_self (h : Rooted size rank root parent) (hu : (parent.get u).isSome) :
    Placement.meet size rank root parent u u = u :=
  letI := h.semilattice
  congrArg PlacedNode.node (inf_idem (⟨u, hu⟩ : PlacedNode parent))

theorem meet_comm (h : Rooted size rank root parent) (hu : (parent.get u).isSome)
    (hv : (parent.get v).isSome) :
    Placement.meet size rank root parent u v = Placement.meet size rank root parent v u :=
  letI := h.semilattice
  congrArg PlacedNode.node (inf_comm (⟨u, hu⟩ : PlacedNode parent) ⟨v, hv⟩)

theorem meet_assoc (h : Rooted size rank root parent) (hu : (parent.get u).isSome)
    (hv : (parent.get v).isSome) (hw : (parent.get w).isSome) :
    Placement.meet size rank root parent (Placement.meet size rank root parent u v) w =
      Placement.meet size rank root parent u (Placement.meet size rank root parent v w) :=
  letI := h.semilattice
  congrArg PlacedNode.node (inf_assoc (⟨u, hu⟩ : PlacedNode parent) ⟨v, hv⟩ ⟨w, hw⟩)

end Rooted

/-! ## The length of the walk -/

theorem mem_apart_iff : d ∈ apart parent u v ↔ ¬(Ancestor parent d u ↔ Ancestor parent d v) :=
  Iff.rfl

theorem apart_comm : apart parent u v = apart parent v u := by
  ext d
  exact not_congr iff_comm

theorem apart_self : apart parent u u = ∅ := by
  simp [apart]

namespace Rooted

theorem finite_apart (h : Rooted size rank root parent) (hu : (parent.get u).isSome)
    (hv : (parent.get v).isSome) : (apart parent u v).Finite := by
  refine (Set.finite_lt_nat size).subset fun d hd => ?_
  have hd : Ancestor parent d u ∨ Ancestor parent d v := by
    by_contra hnone
    push Not at hnone
    exact hd (iff_of_false hnone.1 hnone.2)
  rcases hd with hd | hd
  · exact h.lt_size d (h.of_ancestor hu hd).1
  · exact h.lt_size d (h.of_ancestor hv hd).1

/-- Nothing stands between a placed node and itself only. -/
theorem ncard_apart_eq_zero_iff (h : Rooted size rank root parent) (hu : (parent.get u).isSome)
    (hv : (parent.get v).isSome) : (apart parent u v).ncard = 0 ↔ u = v := by
  rw [Set.ncard_eq_zero (h.finite_apart hu hv)]
  constructor
  · intro hempty
    refine h.eq_of_ancestor_iff hu hv fun d => ?_
    by_contra hd
    exact (Set.eq_empty_iff_forall_notMem.1 hempty) d hd
  · rintro rfl
    exact apart_self

/-- Moving the later one of two nodes up leaves behind that node, and nothing else. -/
theorem ncard_apart_parent (h : Rooted size rank root parent) (hv : (parent.get v).isSome)
    (hlt : rank.get v < rank.get u) (hp : parent.get u = some p) :
    (apart parent p v).ncard + 1 = (apart parent u v).ncard := by
  obtain ⟨hplaced, hltp, -⟩ := h.parent_of_lt hv hlt hp
  have hup := h.not_ancestor_of_lt hplaced hltp
  have huv := h.not_ancestor_of_lt hv hlt
  have hinsert : apart parent u v = insert u (apart parent p v) := by
    ext d
    rw [Set.mem_insert_iff, mem_apart_iff, mem_apart_iff, ancestor_iff_of_parent hp]
    by_cases hd : d = u
    · simp [hd, huv]
    · simp [hd]
  have hmem : u ∉ apart parent p v := by simp [mem_apart_iff, hup, huv]
  rw [hinsert, Set.ncard_insert_of_notMem hmem (h.finite_apart hplaced hv)]

/-- A step of the walk leaves one node behind. -/
theorem ncard_apart_walk (h : Rooted size rank root parent) (hu : (parent.get u).isSome)
    (hv : (parent.get v).isSome) (hne : u ≠ v) :
    let q := Placement.walk rank root parent (u, v)
    (apart parent q.1 q.2).ncard + 1 = (apart parent u v).ncard := by
  rcases h.walk_cases hu hv hne with ⟨p, hp, hlt, hwalk⟩ | ⟨p, hp, hlt, hwalk⟩
  · simp only [hwalk]
    exact h.ncard_apart_parent hv hlt hp
  · simp only [hwalk]
    rw [apart_comm (v := p), apart_comm (v := v)]
    exact h.ncard_apart_parent hu hlt hp

/-- After `k` steps `k` nodes are left behind, and the common ancestors are those of the start. -/
theorem iterate_walk (h : Rooted size rank root parent) (hu : (parent.get u).isSome)
    (hv : (parent.get v).isSome) {k : Nat} (hk : k ≤ (apart parent u v).ncard) :
    ∃ x y, (Placement.walk rank root parent)^[k] (u, v) = (x, y) ∧
      (parent.get x).isSome ∧ (parent.get y).isSome ∧
      (∀ d, Ancestor parent d x ∧ Ancestor parent d y ↔
        Ancestor parent d u ∧ Ancestor parent d v) ∧
      (apart parent x y).ncard + k = (apart parent u v).ncard := by
  induction k with
  | zero => exact ⟨u, v, rfl, hu, hv, fun _ => Iff.rfl, rfl⟩
  | succ k ih =>
    obtain ⟨x, y, hq, hx, hy, hiff, hcard⟩ := ih (by omega)
    have hne : x ≠ y := by
      rw [Ne, ← h.ncard_apart_eq_zero_iff hx hy]
      omega
    obtain ⟨hx', hy', hiff', -⟩ := h.walk hx hy hne
    have hcard' := h.ncard_apart_walk hx hy hne
    refine ⟨_, _, ?_, hx', hy', fun d => (hiff' d).trans (hiff d), by omega⟩
    rw [Function.iterate_succ_apply', hq]

/-- The walk from two placed nodes ends at their nearest common ancestor, when all nodes that are
ancestors of one of the two only are left behind. -/
theorem walkEnds (h : Rooted size rank root parent) (hu : (parent.get u).isSome)
    (hv : (parent.get v).isSome) :
    WalkEnds rank root parent u v (apart parent u v).ncard
      (Placement.meet size rank root parent u v) := by
  refine ⟨fun j hj => ?_, ?_⟩
  · obtain ⟨x, y, hq, hx, hy, -, hcard⟩ := h.iterate_walk hu hv (Nat.le_of_lt hj)
    rw [hq, Ne, ← h.ncard_apart_eq_zero_iff hx hy]
    omega
  · obtain ⟨x, y, hq, hx, hy, hiff, hcard⟩ := h.iterate_walk hu hv (Nat.le_refl _)
    have heq := (h.ncard_apart_eq_zero_iff hx hy).1 (by omega)
    have hmeet : x = Placement.meet size rank root parent u v := by
      refine (h.nearestCommonAncestor_iff_eq_meet hu hv).1 (nearestCommonAncestor_iff.2 fun d => ?_)
      rw [← hiff d, ← heq, and_self_iff]
    rw [hq, ← heq, hmeet]

end Rooted

/-! ## The order of the predecessors -/

namespace Meets

/-- What a list of nodes contributes is settled by its members. -/
theorem of_mem_iff (h : Meets parent v us found) (hmem : ∀ u, u ∈ us ↔ u ∈ us') :
    Meets parent v us' found := by
  cases found <;> simpa only [Meets, hmem] using h

/-- A list of nodes contributes one node at most. -/
theorem unique (h : Meets parent v us found) (hrooted : Rooted size rank root parent)
    (h' : Meets parent v us found') : found = found' := by
  have hnone : ∀ {w}, Meets parent v us none → ¬Meets parent v us (some w) := by
    rintro w hnone ⟨-, ⟨u, hu, hne, hplaced⟩, -⟩
    simp [hnone u hu hne] at hplaced
  cases found with
  | none =>
    cases found' with
    | none => rfl
    | some w' => exact absurd h' (hnone h)
  | some w =>
    cases found' with
    | none => exact absurd h (hnone h')
    | some w' =>
      obtain ⟨hw, -, hiff⟩ := h
      obtain ⟨hw', -, hiff'⟩ := h'
      exact congrArg some (hrooted.eq_of_ancestor_iff hw hw' fun d => (hiff d).trans (hiff' d).symm)

end Meets

namespace Rooted

/-- Lists with the same members have the same in common, however often and in which order they list
them. -/
theorem foldl_meetWith_congr (h : Rooted size rank root parent) (hmem : ∀ u, u ∈ us ↔ u ∈ us')
    (v : Nat) :
    us.foldl (Placement.meetWith size rank root parent v) none =
      us'.foldl (Placement.meetWith size rank root parent v) none :=
  ((h.meets_foldl v us).of_mem_iff hmem).unique h (h.meets_foldl v us')

theorem meetOfPred_congr {a b : Adjacency} (h : Rooted size rank root parent) (ha : a.size = size)
    (hb : b.size = size) (hmem : ∀ u, u ∈ a.pred v ↔ u ∈ b.pred v) :
    Placement.meetOfPred a rank root parent v = Placement.meetOfPred b rank root parent v := by
  rw [Placement.meetOfPred_eq_foldl, Placement.meetOfPred_eq_foldl, ha, hb]
  exact h.foldl_meetWith_congr hmem v

end Rooted

namespace Checked

/-- The checked fold over a list of nodes ends with what those of its members have in common that
are reached and placed. -/
theorem Placement.foldlM_meetWith?_congr (h : Rooted size rank root parent) (reach : NodeMap Bool)
    (hlt : ∀ u ∈ us, u < size) (hmem : ∀ u, u ∈ us ↔ u ∈ us') (v : Nat) :
    us'.foldlM (meetWith? ⟨size, rank⟩ root ⟨size, reach⟩ ⟨size, parent⟩ v) none =
      some ((us.filter reach.get).foldl (FlowBubbles.Placement.meetWith size rank root parent v)
        none) := by
  have hlt' : ∀ u ∈ us', u < size := fun u hu => hlt u ((hmem u).2 hu)
  have hfilter : ∀ u, u ∈ us'.filter reach.get ↔ u ∈ us.filter reach.get := by
    simp [hmem]
  rw [foldlM_meetWith?_eq h reach hlt' v, h.foldl_meetWith_congr hfilter v]

end Checked

/-- In a tree under construction over `size` nodes each placed node but the root, which is its own
parent, has a placed parent of smaller rank, and no two placed nodes have the same rank. Then the
walk from any two placed nodes ends, with all ranks and parents read in range, at the only nearest
common ancestor of the two, after as many steps as there are nodes that are ancestors of one of the
two only. So the meet is idempotent, commutative and associative. The fold over the predecessors of
a node, some of which may count as not reached, ends with what they have in common, however often
and in which order they are listed. -/
theorem Rooted.meet_laws (h : Rooted size rank root parent) :
    let Placed := fun v => (parent.get v).isSome = true
    let meet := Placement.meet size rank root parent
    (∀ u v, Placed u → Placed v →
      WalkEnds rank root parent u v (apart parent u v).ncard (meet u v) ∧
        Checked.meet? ⟨size, rank⟩ root ⟨size, parent⟩ u v = some (meet u v) ∧
        Placed (meet u v) ∧ ∀ w, NearestCommonAncestor parent u v w ↔ w = meet u v) ∧
      (∀ u, Placed u → meet u u = u) ∧
      (∀ u v, Placed u → Placed v → meet u v = meet v u) ∧
      (∀ u v w, Placed u → Placed v → Placed w → meet (meet u v) w = meet u (meet v w)) ∧
      (∀ (a b : Adjacency) (v : Nat), a.size = size → b.size = size →
        (∀ u, u ∈ a.pred v ↔ u ∈ b.pred v) →
        Meets parent v (a.pred v) (Placement.meetOfPred a rank root parent v) ∧
          Placement.meetOfPred a rank root parent v = Placement.meetOfPred b rank root parent v) ∧
      ∀ (reach : NodeMap Bool) (v : Nat) (us us' : List Nat),
        (∀ u ∈ us, u < size) → (∀ u, u ∈ us ↔ u ∈ us') →
        let fold := fun l : List Nat =>
          l.foldlM (Checked.meetWith? ⟨size, rank⟩ root ⟨size, reach⟩ ⟨size, parent⟩ v) none
        ∃ found, Meets parent v (us.filter reach.get) found ∧
          fold us = some found ∧ fold us' = some found := by
  intro Placed meet
  refine ⟨fun u v hu hv => ⟨h.walkEnds hu hv, Checked.meet?_eq_some h hu hv, (h.meet hu hv).1,
      fun w => h.nearestCommonAncestor_iff_eq_meet hu hv⟩,
    fun u hu => h.meet_self hu, fun u v hu hv => h.meet_comm hu hv,
    fun u v w hu hv hw => h.meet_assoc hu hv hw, fun a b v ha hb hmem => ?_,
    fun reach v us us' hlt hmem => ?_⟩
  · exact ⟨(ha ▸ h : Rooted a.size rank root parent).meetOfPred v, h.meetOfPred_congr ha hb hmem⟩
  · exact ⟨_, h.meets_foldl v _, Checked.Placement.foldlM_meetWith?_congr h reach hlt
      (fun _ => Iff.rfl) v, Checked.Placement.foldlM_meetWith?_congr h reach hlt hmem v⟩

/-- Node 2 is the root, with nodes 0 and 4 below it. Below node 0 are node 1 and node 3, and node 6
is below node 3. Node 5 is not placed. -/
def branches : NodeMap (Option Nat) :=
  ⟨none, #[some 2, some 0, some 2, some 0, some 2, none, some 3]⟩

def branchRanks : NodeMap Nat := ⟨7, #[1, 3, 0, 4, 2, 7, 5]⟩

/-- Some edges into node 5, with copies and a loop. -/
def joinedTwice : Digraph Unit where
  labels := #[(), (), (), (), (), (), ()]
  edges := #[⟨1, 5⟩, ⟨6, 5⟩, ⟨5, 5⟩, ⟨1, 5⟩, ⟨6, 5⟩]
  edges_lt := by decide

/-- The edges of `joinedTwice` once each, in another order. -/
def joinedOnce : Digraph Unit where
  labels := #[(), (), (), (), (), (), ()]
  edges := #[⟨6, 5⟩, ⟨5, 5⟩, ⟨1, 5⟩]
  edges_lt := by decide

theorem rooted_branches : Rooted 7 branchRanks 2 branches := by
  have hlt : ∀ v, (branches.get v).isSome → v < 7 := by
    intro v hv
    by_contra hle
    simp [branches, NodeMap.get, Array.getD, hle] at hv
  have hup : ∀ v < 7, ∀ p ∈ branches.get v, v ≠ 2 →
      (branches.get p).isSome ∧ branchRanks.get p < branchRanks.get v := by decide
  have hinj : ∀ u < 7, ∀ v < 7, branchRanks.get u = branchRanks.get v → u = v := by decide
  refine ⟨rfl, fun v p hp hv => ?_, fun u v hu hv => hinj u (hlt u hu) v (hlt v hv), hlt⟩
  exact hup v (hlt v (by rw [hp]; rfl)) p hp hv

theorem meet_laws_branches :
    Rooted 7 branchRanks 2 branches ∧
      WalkEnds branchRanks 2 branches 6 1 (apart branches 6 1).ncard 0 ∧
      (∀ w, NearestCommonAncestor branches 6 1 w ↔ w = 0) ∧
      (∀ w, NearestCommonAncestor branches 6 4 w ↔ w = 2) ∧
      Placement.meetOfPred joinedTwice.adjacency branchRanks 2 branches 5 = some 0 ∧
      Placement.meetOfPred joinedOnce.adjacency branchRanks 2 branches 5 = some 0 := by
  obtain ⟨hmeets, -, -, -, hfold, -⟩ := Rooted.meet_laws rooted_branches
  obtain ⟨hends, -, -, hnearest⟩ := hmeets 6 1 rfl rfl
  obtain ⟨-, -, -, hnearest'⟩ := hmeets 6 4 rfl rfl
  have hmeet : Placement.meet 7 branchRanks 2 branches 6 1 = 0 := by decide
  have hmeet' : Placement.meet 7 branchRanks 2 branches 6 4 = 2 := by decide
  have hpred : joinedTwice.adjacency.pred 5 = [1, 6, 5, 1, 6] := by decide
  have hpred' : joinedOnce.adjacency.pred 5 = [6, 5, 1] := by decide
  have hfound : Placement.meetOfPred joinedTwice.adjacency branchRanks 2 branches 5 = some 0 := by
    decide
  have hsame := (hfold joinedTwice.adjacency joinedOnce.adjacency 5 rfl rfl fun u => (by
    rw [hpred, hpred']
    simp only [List.mem_cons, List.not_mem_nil]
    tauto)).2
  rw [hmeet] at hends hnearest
  rw [hmeet'] at hnearest'
  exact ⟨rooted_branches, hends, hnearest, hnearest', hfound, hsame.symm.trans hfound⟩

/-! ## The tree -/

section

variable {a b : Adjacency} {order done rest : List Nat} {t : Placement}

/-- A node is placed alike in graphs in which it has the same predecessors. -/
theorem Placement.place_congr (h : t.Sound a root order done) (hsize : b.size = a.size)
    (hmem : ∀ u, u ∈ b.pred v ↔ u ∈ a.pred v) :
    place b (.positions order order.length) root t v =
      place a (.positions order order.length) root t v := by
  rw [place, place, h.rooted.meetOfPred_congr hsize rfl hmem]

theorem Placement.foldl_place_congr (h : a.Suits root order) (hsize : b.size = a.size)
    (hmem : ∀ u v, u ∈ b.pred v ↔ u ∈ a.pred v) (ht : t.Sound a root order done)
    (horder : order = done ++ rest) :
    rest.foldl (place b (.positions order order.length) root) t =
      rest.foldl (place a (.positions order order.length) root) t := by
  induction rest generalizing done t with
  | nil => rfl
  | cons v rest ih =>
    rw [List.foldl_cons, List.foldl_cons, place_congr ht hsize fun u => hmem u v]
    exact ih (sound_place ht h horder) (by simp [horder])

/-- The tree along an order is the same for graphs that differ in copies of edges, and in the order
of their edges, only. -/
theorem Adjacency.dominatorTree_congr (h : a.Suits root order) (hsize : b.size = a.size)
    (hmem : ∀ u v, u ∈ b.pred v ↔ u ∈ a.pred v) :
    b.dominatorTree root order = a.dominatorTree root order := by
  have hstart : Placement.start b root = Placement.start a root := by
    rw [Placement.start, Placement.start, hsize]
  simp only [dominatorTree, nodes, hsize, hstart,
    Placement.foldl_place_congr h hsize hmem (Placement.sound_start h) (List.nil_append order).symm]

end

end FlowBubbles
