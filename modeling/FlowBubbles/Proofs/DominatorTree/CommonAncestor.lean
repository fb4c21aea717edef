import FlowBubbles.DominatorTree.Placement
import Mathlib.Data.Finset.Card
import Mathlib.Logic.Relation

/-!
# Nearest common ancestors

While a dominator tree is built, the placed nodes form a tree: each but the root has a placed parent
of smaller rank. The walk from two placed nodes ends at their nearest common ancestor, the placed
node whose ancestors are the common ancestors of the two (`Rooted.meet`). What the predecessors of a
node have in common is therefore the same for any list of the same predecessors
(`Rooted.meetOfPred`).
-/

namespace FlowBubbles

/-- Whether `d` is `v` or lies on the way from `v` up to the root. -/
def Ancestor (parent : NodeMap (Option Nat)) (d v : Nat) : Prop :=
  Relation.ReflTransGen (fun v p => parent.get v = some p) v d

/-- The placed nodes of a graph of `size` nodes form a tree: each but the root has a placed parent
of smaller rank. -/
structure Rooted (size : Nat) (rank : NodeMap Nat) (root : Nat) (parent : NodeMap (Option Nat)) :
    Prop where
  parent_root : parent.get root = some root
  up : ∀ v p, parent.get v = some p → v ≠ root →
    (parent.get p).isSome ∧ rank.get p < rank.get v
  inj : ∀ u v, (parent.get u).isSome → (parent.get v).isSome → rank.get u = rank.get v → u = v
  lt_size : ∀ v, (parent.get v).isSome → v < size

variable {size root d p u v w x y : Nat} {rank : NodeMap Nat} {parent : NodeMap (Option Nat)}

/-! ## Ancestors -/

@[refl] theorem Ancestor.refl (v : Nat) : Ancestor parent v v := Relation.ReflTransGen.refl

/-- The ancestors of a node are the node itself and those of its parent. -/
theorem ancestor_iff_of_parent (h : parent.get v = some p) :
    Ancestor parent d v ↔ d = v ∨ Ancestor parent d p := by
  constructor
  · intro hd
    rcases Relation.ReflTransGen.cases_head hd with rfl | ⟨q, hq, hd⟩
    · exact .inl rfl
    · obtain rfl : p = q := Option.some.inj (h.symm.trans hq)
      exact .inr hd
  · rintro (rfl | hd)
    · exact .refl d
    · exact Relation.ReflTransGen.head h hd

namespace Rooted

theorem ancestor_root_iff (h : Rooted size rank root parent) :
    Ancestor parent d root ↔ d = root := by
  constructor
  · intro hd
    induction hd with
    | refl => rfl
    | @tail x y _ hxy ih =>
      subst ih
      exact Option.some.inj (hxy.symm.trans h.parent_root)
  · rintro rfl
    exact .refl d

/-- An ancestor of a placed node is placed, and of smaller rank unless it is the node itself. -/
theorem of_ancestor (h : Rooted size rank root parent) (hv : (parent.get v).isSome)
    (hd : Ancestor parent d v) :
    (parent.get d).isSome ∧ (d = v ∨ rank.get d < rank.get v) := by
  induction hd with
  | refl => exact ⟨hv, .inl rfl⟩
  | @tail x y _ hxy ih =>
    by_cases hx : x = root
    · subst hx
      obtain rfl : x = y := Option.some.inj (h.parent_root.symm.trans hxy)
      exact ih
    · obtain ⟨hy, hlt⟩ := h.up x y hxy hx
      refine ⟨hy, .inr ?_⟩
      rcases ih.2 with rfl | hlt'
      · exact hlt
      · exact hlt.trans hlt'

/-- The root is an ancestor of every placed node. -/
theorem ancestor_root (h : Rooted size rank root parent) (hv : (parent.get v).isSome) :
    Ancestor parent root v := by
  induction hrank : rank.get v using Nat.strongRecOn generalizing v with
  | _ n ih =>
    by_cases hroot : v = root
    · rw [hroot]
    · obtain ⟨p, hp⟩ := Option.isSome_iff_exists.1 hv
      obtain ⟨hplaced, hlt⟩ := h.up v p hp hroot
      exact (ancestor_iff_of_parent hp).2 (.inr (ih _ (hrank ▸ hlt) hplaced rfl))

theorem rank_root_le (h : Rooted size rank root parent) (hv : (parent.get v).isSome) :
    rank.get root ≤ rank.get v := by
  rcases (h.of_ancestor hv (h.ancestor_root hv)).2 with rfl | hlt
  · exact Nat.le_refl _
  · exact Nat.le_of_lt hlt

/-- Placed nodes with the same ancestors are equal. -/
theorem ancestor_antisymm (h : Rooted size rank root parent) (hu : (parent.get u).isSome)
    (hv : (parent.get v).isSome) (huv : Ancestor parent u v) (hvu : Ancestor parent v u) :
    u = v := by
  rcases (h.of_ancestor hv huv).2 with heq | hlt
  · exact heq
  · rcases (h.of_ancestor hu hvu).2 with heq | hlt'
    · exact heq.symm
    · exact absurd hlt' (Nat.lt_asymm hlt)

/-! ## Placing a node -/

/-- A node that is placed below another one changes nothing above it. -/
theorem ancestor_set_iff (h : Rooted size rank root parent) (hv : parent.get v = none)
    (hx : (parent.get x).isSome) :
    Ancestor (parent.set v (some w)) d x ↔ Ancestor parent d x := by
  -- the way up from `x` visits placed nodes only
  have hget : ∀ y, Ancestor parent y x → (parent.set v (some w)).get y = parent.get y := by
    intro y hy
    have hplaced := (h.of_ancestor hx hy).1
    have hne : y ≠ v := fun heq => by simp [heq, hv] at hplaced
    rw [NodeMap.get_set, if_neg hne]
  constructor
  · intro hd
    induction hd with
    | refl => exact .refl x
    | tail _ hyz ih => exact Relation.ReflTransGen.tail ih (by rwa [hget _ ih] at hyz)
  · intro hd
    induction hd with
    | refl => exact .refl x
    | tail hy hyz ih => exact Relation.ReflTransGen.tail ih (by rwa [hget _ hy])

/-- The tree grows by a node of greatest rank. -/
theorem set (h : Rooted size rank root parent) (hv : parent.get v = none) (hlt : v < size)
    (hw : (parent.get w).isSome) (hrank : ∀ x, (parent.get x).isSome → rank.get x < rank.get v) :
    Rooted size rank root (parent.set v (some w)) := by
  have hroot : root ≠ v := by
    intro heq
    have := h.parent_root
    simp [heq, hv] at this
  have hplaced : ∀ {x}, ((parent.set v (some w)).get x).isSome → x ≠ v →
      (parent.get x).isSome := fun hx hne => by
    rwa [NodeMap.get_set, if_neg hne] at hx
  have hkept : ∀ {x}, (parent.get x).isSome → ((parent.set v (some w)).get x).isSome := by
    intro x hx
    rw [NodeMap.get_set]
    split
    · rfl
    · exact hx
  refine ⟨?_, ?_, ?_, ?_⟩
  · rw [NodeMap.get_set, if_neg hroot, h.parent_root]
  · intro x p hp hx
    by_cases hxv : x = v
    · rw [NodeMap.get_set, if_pos hxv] at hp
      obtain rfl := Option.some.inj hp
      exact ⟨hkept hw, hxv ▸ hrank w hw⟩
    · rw [NodeMap.get_set, if_neg hxv] at hp
      obtain ⟨hp', hlt⟩ := h.up x p hp hx
      exact ⟨hkept hp', hlt⟩
  · intro x y hx hy heq
    by_cases hxv : x = v
    · by_cases hyv : y = v
      · rw [hxv, hyv]
      · have := hrank y (hplaced hy hyv)
        rw [← heq, hxv] at this
        exact absurd this (Nat.lt_irrefl _)
    · by_cases hyv : y = v
      · have := hrank x (hplaced hx hxv)
        rw [heq, hyv] at this
        exact absurd this (Nat.lt_irrefl _)
      · exact h.inj x y (hplaced hx hxv) (hplaced hy hyv) heq
  · intro x hx
    by_cases hxv : x = v
    · rwa [hxv]
    · exact h.lt_size x (hplaced hx hxv)

/-! ## Walking up -/

/-- The later one of two placed nodes is no ancestor of the other. -/
theorem not_ancestor_of_lt (h : Rooted size rank root parent) (hv : (parent.get v).isSome)
    (hlt : rank.get v < rank.get u) : ¬Ancestor parent u v := by
  intro hu
  rcases (h.of_ancestor hv hu).2 with rfl | hlt'
  · exact Nat.lt_irrefl _ hlt
  · exact Nat.lt_asymm hlt hlt'

/-- The later one of two placed nodes is no common ancestor, so that its parent may take its
place. -/
theorem parent_of_lt (h : Rooted size rank root parent) (hv : (parent.get v).isSome)
    (hlt : rank.get v < rank.get u) (hp : parent.get u = some p) :
    (parent.get p).isSome ∧ rank.get p < rank.get u ∧
      ∀ d, Ancestor parent d v → (Ancestor parent d p ↔ Ancestor parent d u) := by
  have hroot : u ≠ root := by
    rintro rfl
    exact h.not_ancestor_of_lt hv hlt (h.ancestor_root hv)
  obtain ⟨hplaced, hltp⟩ := h.up u p hp hroot
  refine ⟨hplaced, hltp, fun d hd => ?_⟩
  rw [ancestor_iff_of_parent hp, or_iff_right]
  rintro rfl
  exact h.not_ancestor_of_lt hv hlt hd

/-- A step of the walk from two different placed nodes moves the later one up to its parent. -/
theorem walk_cases (h : Rooted size rank root parent) (hu : (parent.get u).isSome)
    (hv : (parent.get v).isSome) (hne : u ≠ v) :
    (∃ p, parent.get u = some p ∧ rank.get v < rank.get u ∧
      Placement.walk rank root parent (u, v) = (p, v)) ∨
    (∃ p, parent.get v = some p ∧ rank.get u < rank.get v ∧
      Placement.walk rank root parent (u, v) = (u, p)) := by
  by_cases hlt : rank.get v < rank.get u
  · obtain ⟨p, hp⟩ := Option.isSome_iff_exists.1 hu
    refine .inl ⟨p, hp, hlt, ?_⟩
    simp only [Placement.walk, hlt, if_true, hp, Option.getD_some]
  · obtain ⟨p, hp⟩ := Option.isSome_iff_exists.1 hv
    have hlt' : rank.get u < rank.get v := by
      have := mt (h.inj u v hu hv) hne
      omega
    refine .inr ⟨p, hp, hlt', ?_⟩
    simp only [Placement.walk, hlt, if_false, hp, Option.getD_some]

/-- The number of placed nodes of a rank below `r`. -/
def placedBelow (size : Nat) (rank : NodeMap Nat) (parent : NodeMap (Option Nat)) (r : Nat) : Nat :=
  ((Finset.range size).filter fun v => (parent.get v).isSome ∧ rank.get v < r).card

theorem placedBelow_le (size : Nat) (rank : NodeMap Nat) (parent : NodeMap (Option Nat)) (r : Nat) :
    placedBelow size rank parent r ≤ size := by
  have hcard := Finset.card_filter_le (Finset.range size) fun v =>
    (parent.get v).isSome ∧ rank.get v < r
  rwa [Finset.card_range] at hcard

/-- There are fewer placed nodes below the rank of a placed node than in a list of all of them. -/
theorem placedBelow_lt_length {l : List Nat} (hl : ∀ x, (parent.get x).isSome → x ∈ l)
    (hv : (parent.get v).isSome) : placedBelow size rank parent (rank.get v) < l.length := by
  have hsub : insert v ((Finset.range size).filter fun x =>
      (parent.get x).isSome ∧ rank.get x < rank.get v) ⊆ l.toFinset := by
    intro x hx
    rw [Finset.mem_insert, Finset.mem_filter] at hx
    rw [List.mem_toFinset]
    rcases hx with rfl | ⟨-, hx, -⟩
    · exact hl x hv
    · exact hl x hx
  have hcard := Finset.card_le_card hsub
  rw [Finset.card_insert_of_notMem (by simp)] at hcard
  exact hcard.trans (List.toFinset_card_le l)

theorem placedBelow_lt (h : Rooted size rank root parent) (hp : (parent.get p).isSome) {r : Nat}
    (hlt : rank.get p < r) :
    placedBelow size rank parent (rank.get p) < placedBelow size rank parent r := by
  refine Finset.card_lt_card ((Finset.ssubset_iff_of_subset fun x hx => ?_).2 ⟨p, ?_, ?_⟩)
  · rw [Finset.mem_filter] at hx ⊢
    exact ⟨hx.1, hx.2.1, hx.2.2.trans hlt⟩
  · rw [Finset.mem_filter, Finset.mem_range]
    exact ⟨h.lt_size p hp, hp, hlt⟩
  · simp

/-- A step of the walk from two placed nodes keeps their common ancestors, and lowers the number of
nodes that are left to visit. -/
theorem walk (h : Rooted size rank root parent) (hu : (parent.get u).isSome)
    (hv : (parent.get v).isSome) (hne : u ≠ v) :
    let q := Placement.walk rank root parent (u, v)
    (parent.get q.1).isSome ∧ (parent.get q.2).isSome ∧
      (∀ d, Ancestor parent d q.1 ∧ Ancestor parent d q.2 ↔
        Ancestor parent d u ∧ Ancestor parent d v) ∧
      placedBelow size rank parent (rank.get q.1) + placedBelow size rank parent (rank.get q.2) <
        placedBelow size rank parent (rank.get u) + placedBelow size rank parent (rank.get v) := by
  rcases h.walk_cases hu hv hne with ⟨p, hp, hlt, hwalk⟩ | ⟨p, hp, hlt, hwalk⟩
  · obtain ⟨hplaced, hltp, hiff⟩ := h.parent_of_lt hv hlt hp
    simp only [hwalk]
    refine ⟨hplaced, hv, fun d => and_congr_left (hiff d), ?_⟩
    exact Nat.add_lt_add_right (h.placedBelow_lt hplaced hltp) _
  · obtain ⟨hplaced, hltp, hiff⟩ := h.parent_of_lt hu hlt hp
    simp only [hwalk]
    refine ⟨hu, hplaced, fun d => and_congr_right (hiff d), ?_⟩
    exact Nat.add_lt_add_left (h.placedBelow_lt hplaced hltp) _

/-- The walk from two placed nodes comes to its end: every step leaves fewer nodes to visit. -/
theorem halted_walk (h : Rooted size rank root parent) (hu : (parent.get u).isSome)
    (hv : (parent.get v).isSome) :
    let q := iterate (fun p => p.1 == p.2) (Placement.walk rank root parent)
      ((size + 1) * (size + 1)) (u, v)
    (q.1 == q.2) = true := by
  refine @halted_iterate _ (fun q : Nat × Nat => q.1 == q.2) (Placement.walk rank root parent)
    (fun q => (parent.get q.1).isSome ∧ (parent.get q.2).isSome)
    (fun q => placedBelow size rank parent (rank.get q.1) +
      placedBelow size rank parent (rank.get q.2)) (fun q hne hq => ?_) (fun q hne hq => ?_) _ _
    ⟨hu, hv⟩ ?_
  · obtain ⟨hx, hy, -, -⟩ := h.walk hq.1 hq.2 (by simpa using hne)
    exact ⟨hx, hy⟩
  · exact (h.walk hq.1 hq.2 (by simpa using hne)).2.2.2
  · have hu := placedBelow_le size rank parent (rank.get u)
    have hv := placedBelow_le size rank parent (rank.get v)
    simp only [Nat.succ_mul, Nat.mul_succ]
    omega

/-- The walk from two placed nodes ends at their nearest common ancestor. -/
theorem meet (h : Rooted size rank root parent) (hu : (parent.get u).isSome)
    (hv : (parent.get v).isSome) :
    let w := Placement.meet size rank root parent u v
    (parent.get w).isSome ∧
      ∀ d, Ancestor parent d w ↔ Ancestor parent d u ∧ Ancestor parent d v := by
  set P : Nat × Nat → Prop := fun q => (parent.get q.1).isSome ∧ (parent.get q.2).isSome ∧
    ∀ d, Ancestor parent d q.1 ∧ Ancestor parent d q.2 ↔
      Ancestor parent d u ∧ Ancestor parent d v with hP
  -- the walk keeps the common ancestors
  have hkeeps : ∀ q : Nat × Nat, (q.1 == q.2) = false → P q →
      P (Placement.walk rank root parent q) := by
    rintro ⟨x, y⟩ hne ⟨hx, hy, hiff⟩
    obtain ⟨hx', hy', hiff', -⟩ := h.walk hx hy (by simpa using hne)
    exact ⟨hx', hy', fun d => (hiff' d).trans (hiff d)⟩
  obtain ⟨hx, -, hiff⟩ := iterate_invariant hkeeps ((size + 1) * (size + 1)) (u, v)
    ⟨hu, hv, fun _ => Iff.rfl⟩
  refine ⟨hx, fun d => ?_⟩
  rw [← hiff d, ← eq_of_beq (h.halted_walk hu hv), and_self_iff]
  rfl

end Rooted

/-! ## What predecessors have in common -/

/-- What the nodes `us` contribute to the place of `v`: a node whose ancestors are the common
ancestors of the placed ones among them, `v` left out, or nothing if none is placed. -/
def Meets (parent : NodeMap (Option Nat)) (v : Nat) (us : List Nat) : Option Nat → Prop
  | none => ∀ u ∈ us, u ≠ v → parent.get u = none
  | some w => (parent.get w).isSome ∧ (∃ u ∈ us, u ≠ v ∧ (parent.get u).isSome) ∧
    ∀ d, Ancestor parent d w ↔ ∀ u ∈ us, u ≠ v → (parent.get u).isSome → Ancestor parent d u

namespace Meets

variable {us : List Nat} {found : Option Nat}

/-- A node that is left out contributes nothing. -/
theorem append_skip (h : Meets parent v us found) (hu : u = v ∨ parent.get u = none) :
    Meets parent v (us ++ [u]) found := by
  have hall : ∀ Q : Nat → Prop, (∀ x ∈ us ++ [u], x ≠ v → (parent.get x).isSome → Q x) ↔
      ∀ x ∈ us, x ≠ v → (parent.get x).isSome → Q x := fun Q => by
    simp only [List.mem_append, List.mem_singleton, or_imp, forall_and, forall_eq, and_iff_left_iff_imp]
    rintro - hne hplaced
    rcases hu with rfl | hnone
    · exact absurd rfl hne
    · simp [hnone] at hplaced
  cases found with
  | none =>
    simp only [Meets, List.mem_append, List.mem_singleton, or_imp, forall_and, forall_eq] at h ⊢
    exact ⟨h, fun hne => hu.resolve_left hne⟩
  | some w =>
    obtain ⟨hw, ⟨x, hx, hxv⟩, hiff⟩ := h
    exact ⟨hw, ⟨x, List.mem_append_left _ hx, hxv⟩, fun d => (hiff d).trans (hall _).symm⟩

/-- The first node that counts is what is found. -/
theorem append_first (h : Meets parent v us none) (hne : u ≠ v) (hu : (parent.get u).isSome) :
    Meets parent v (us ++ [u]) (some u) := by
  refine ⟨hu, ⟨u, by simp, hne, hu⟩, fun d => ?_⟩
  simp only [List.mem_append, List.mem_singleton, or_imp, forall_and, forall_eq]
  constructor
  · intro hd
    refine ⟨fun x hx hxv hplaced => ?_, fun _ _ => hd⟩
    simp [h x hx hxv] at hplaced
  · exact fun hd => hd.2 hne hu

/-- A further node that counts is met with what is found. -/
theorem append_meet (h : Meets parent v us (some w)) (hne : u ≠ v) (hu : (parent.get u).isSome)
    (hx : (parent.get x).isSome)
    (hmeet : ∀ d, Ancestor parent d x ↔ Ancestor parent d u ∧ Ancestor parent d w) :
    Meets parent v (us ++ [u]) (some x) := by
  obtain ⟨-, -, hiff⟩ := h
  refine ⟨hx, ⟨u, by simp, hne, hu⟩, fun d => ?_⟩
  simp only [List.mem_append, List.mem_singleton, or_imp, forall_and, forall_eq]
  rw [hmeet, hiff, and_comm]
  simp [hne, hu]

end Meets

/-! ## The fold over predecessors -/

namespace Placement

/-- Takes the node `u` into account for the place of `v`, unless it is `v` itself or not placed. -/
def meetWith (size : Nat) (rank : NodeMap Nat) (root : Nat) (parent : NodeMap (Option Nat))
    (v : Nat) (found : Option Nat) (u : Nat) : Option Nat :=
  if u = v || (parent.get u).isNone then found
  else match found with
    | none => some u
    | some w => some (meet size rank root parent u w)

theorem meetOfPred_eq_foldl (a : Adjacency) (rank : NodeMap Nat) (root : Nat)
    (parent : NodeMap (Option Nat)) (v : Nat) :
    meetOfPred a rank root parent v = (a.pred v).foldl (meetWith a.size rank root parent v) none :=
  rfl

end Placement

/-- The fold over a list of nodes finds their nearest common ancestor. -/
theorem Rooted.meets_foldl (h : Rooted size rank root parent) (v : Nat) (us : List Nat) :
    Meets parent v us (us.foldl (Placement.meetWith size rank root parent v) none) := by
  induction us using List.reverseRecOn with
  | nil => simp [Meets]
  | append_singleton us u ih =>
    rw [List.foldl_append, List.foldl_cons, List.foldl_nil, Placement.meetWith.eq_def]
    split
    · rename_i hskip
      exact ih.append_skip (by simpa using hskip)
    · rename_i hcounts
      obtain ⟨hne, hu⟩ : u ≠ v ∧ (parent.get u).isSome := by
        simpa [Option.isSome_iff_ne_none] using hcounts
      split
      · rename_i hnone
        rw [hnone] at ih
        exact ih.append_first hne hu
      · rename_i w hsome
        rw [hsome] at ih
        obtain ⟨hx, hmeet⟩ := h.meet hu ih.1
        exact ih.append_meet hne hu hx hmeet

/-- The fold over the predecessors of a node finds their nearest common ancestor. -/
theorem Rooted.meetOfPred {a : Adjacency} (h : Rooted a.size rank root parent) (v : Nat) :
    Meets parent v (a.pred v) (Placement.meetOfPred a rank root parent v) := by
  rw [Placement.meetOfPred_eq_foldl]
  exact h.meets_foldl v (a.pred v)

end FlowBubbles
