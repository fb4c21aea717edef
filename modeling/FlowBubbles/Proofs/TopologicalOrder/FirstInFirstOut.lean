import FlowBubbles.Proofs.TopologicalOrder.Joining
import Mathlib.Data.Finset.Max

/-!
# First in, first out

The entries of the graph come first in the order. The other nodes stand in the order of the last
nodes that precede them, and behind the same node in the order of the last edges out of it. This law
says all about the order: it is the only list of the nodes that obeys it
(`Adjacency.topologicalOrder_eq_some_iff_firstInFirstOut`).
-/

namespace FlowBubbles

/-- The position of the last occurrence of a value in a list. -/
def lastIdxOf (l : List Nat) (x : Nat) : Nat := l.length - 1 - l.reverse.idxOf x

theorem lastIdxOf_eq {l : List Nat} {x i : Nat} (h : l[i]? = some x) (hlast : x ∉ l.drop (i + 1)) :
    lastIdxOf l x = i := by
  obtain ⟨hi, rfl⟩ := List.getElem?_eq_some_iff.1 h
  have hsplit : l.reverse = (l.drop (i + 1)).reverse ++ l[i] :: (l.take i).reverse := by
    conv_lhs => rw [← List.take_append_drop i l, List.drop_eq_getElem_cons hi]
    simp
  have hidx : l.reverse.idxOf l[i] = l.length - (i + 1) := by
    rw [hsplit, List.idxOf_append_of_notMem (by simpa using hlast), List.idxOf_cons_self]
    simp
  rw [lastIdxOf, hidx]
  omega

namespace Adjacency

variable {a : Adjacency} {order order' : List Nat} {p q u v x y n : Nat}

/-! ## The law -/

/-- `p` is, in the order, the last of the other nodes that precede `x`. -/
structure LastPred (a : Adjacency) (order : List Nat) (x p : Nat) : Prop where
  mem : p ∈ a.pred x
  ne : p ≠ x
  le : ∀ q ∈ a.pred x, q ≠ x → order.idxOf q ≤ order.idxOf p

/-- The entries come first, in ascending order. Of two other nodes the one comes first whose last
predecessor comes first, or, if they have the same one, the one whose last occurrence among the
successors of this predecessor comes first. -/
structure FirstInFirstOut (a : Adjacency) (order : List Nat) : Prop where
  entries : a.entries <+: order
  later : ∀ x y p q, a.LastPred order x p → a.LastPred order y q →
    (order.idxOf x < order.idxOf y ↔
      order.idxOf p < order.idxOf q ∨
        p = q ∧ lastIdxOf (a.succ p) x < lastIdxOf (a.succ p) y)

theorem LastPred.not_mem_entries (h : a.LastPred order x p) : x ∉ a.entries := fun hx =>
  h.ne ((mem_entries_iff.1 hx).2 p (a.mem_pred_iff.1 h.mem))

theorem LastPred.lt_size (h : a.LastPred order x p) : p < a.size ∧ x < a.size :=
  a.lt_of_mem_succ (a.mem_pred_iff.1 h.mem)

theorem LastPred.mem_order (h : a.LastPred order x p) (hperm : order.Perm a.nodes) :
    p ∈ order ∧ x ∈ order :=
  ⟨hperm.mem_iff.2 (mem_nodes.2 h.lt_size.1), hperm.mem_iff.2 (mem_nodes.2 h.lt_size.2)⟩

/-- Every node of the graph that is no entry has a last predecessor. -/
theorem exists_lastPred (order : List Nat) (hx : x < a.size) (hentry : x ∉ a.entries) :
    ∃ p, a.LastPred order x p := by
  rw [mem_entries_iff, not_and] at hentry
  obtain ⟨u, hu⟩ := not_forall.1 (hentry hx)
  obtain ⟨hedge, hne⟩ := Classical.not_imp.1 hu
  obtain ⟨p, hp, hmax⟩ := ((a.pred x).toFinset.filter (· ≠ x)).exists_max_image order.idxOf
    ⟨u, by simp [a.mem_pred_iff, hedge, hne]⟩
  simp only [Finset.mem_filter, List.mem_toFinset] at hp hmax
  exact ⟨p, hp.1, hp.2, fun q hq hqx => hmax q ⟨hq, hqx⟩⟩

theorem LastPred.unique (hp : a.LastPred order x p) (hq : a.LastPred order x q) (hmem : p ∈ order) :
    p = q :=
  (List.idxOf_inj hmem).1 (Nat.le_antisymm (hq.le p hp.mem hp.ne) (hp.le q hq.mem hq.ne))

/-- Orders that agree on the predecessors of a node agree on the last one. -/
theorem LastPred.congr (h : a.LastPred order x p)
    (hidx : ∀ q ∈ a.pred x, q ≠ x → order'.idxOf q = order.idxOf q) : a.LastPred order' x p := by
  refine ⟨h.mem, h.ne, fun q hq hne => ?_⟩
  rw [hidx q hq hne, hidx p h.mem h.ne]
  exact h.le q hq hne

/-- The entries stand at the head of an order that starts with them. -/
theorem mem_entries_iff_idxOf_lt (h : a.entries <+: order) :
    x ∈ a.entries ↔ order.idxOf x < a.entries.length := by
  obtain ⟨rest, rfl⟩ := h
  by_cases hx : x ∈ a.entries
  · rw [List.idxOf_append_of_mem hx, List.idxOf_lt_length_iff]
  · rw [List.idxOf_append_of_notMem hx]
    simp [hx]

end Adjacency

/-! ## The order obeys the law -/

namespace Line

variable {a : Adjacency} {order : List Nat} {p q x y : Nat} {m now : Nat × Nat}

/-- A node joins with the last edge out of its last predecessor. -/
theorem JoinsAt.eq (h : JoinsAt a order x m) (hnodup : order.Nodup)
    (hp : a.LastPred order x p) : m = (order.idxOf p, lastIdxOf (a.succ p) x) := by
  obtain ⟨p', hp', hne, hget, hlast⟩ := h.last
  obtain ⟨hlt, rfl⟩ := List.getElem?_eq_some_iff.1 hp'
  -- the last predecessor stands neither in front of the node dealt with nor behind it
  have hidx : order.idxOf order[m.1] = m.1 := hnodup.idxOf_getElem m.1 hlt
  have hle := hp.le _ (a.mem_pred_iff.2 (List.mem_of_getElem? hget)) hne
  have hmem := h.preds p hp.mem hp.ne
  have hlt' := (List.mem_take_iff_idxOf_lt (List.mem_of_mem_take hmem)).1 hmem
  have hpm : order.idxOf p = order.idxOf order[m.1] := by omega
  obtain rfl := (List.idxOf_inj (List.mem_of_mem_take hmem)).1 hpm
  rw [lastIdxOf_eq hget hlast, hidx]

/-- Nodes that joined one after the other have their last predecessors in this order. -/
theorem Filed.earlier (h : Filed a now order) (hperm : order.Perm a.nodes)
    (hp : a.LastPred order x p) (hq : a.LastPred order y q)
    (hlt : order.idxOf x < order.idxOf y) :
    Earlier (order.idxOf p, lastIdxOf (a.succ p) x) (order.idxOf q, lastIdxOf (a.succ q) y) := by
  have hnodup := hperm.nodup_iff.2 List.nodup_range
  obtain ⟨joined, hjoined⟩ := h.entries
  have hsorted := h.sorted
  -- positions among the nodes that joined are counted from the end of the entries
  have hidx : ∀ {z r}, a.LastPred order z r →
      order.idxOf z = a.entries.length + joined.idxOf z ∧ joined.idxOf z < joined.length := by
    intro z r hr
    have hz := (hr.mem_order hperm).2
    rw [← hjoined, List.mem_append] at hz
    rw [← hjoined, List.idxOf_append_of_notMem hr.not_mem_entries, List.idxOf_lt_length_iff]
    exact ⟨rfl, hz.resolve_left hr.not_mem_entries⟩
  rw [← hjoined, List.drop_left, hjoined, List.pairwise_iff_getElem] at hsorted
  obtain ⟨hxidx, hx⟩ := hidx hp
  obtain ⟨hyidx, hy⟩ := hidx hq
  obtain ⟨m, n, hm, hn, hmn⟩ := hsorted _ _ hx hy (by omega)
  rw [List.getElem_idxOf] at hm hn
  rwa [← hm.eq hnodup hp, ← hn.eq hnodup hq]

theorem Filed.firstInFirstOut (h : Filed a now order) (hperm : order.Perm a.nodes) :
    a.FirstInFirstOut order := by
  refine ⟨h.entries, fun x y p q hp hq => ?_⟩
  obtain ⟨hpmem, hxmem⟩ := hp.mem_order hperm
  have hkey : order.idxOf p < order.idxOf q ∨
        p = q ∧ lastIdxOf (a.succ p) x < lastIdxOf (a.succ p) y ↔
      Earlier (order.idxOf p, lastIdxOf (a.succ p) x) (order.idxOf q, lastIdxOf (a.succ q) y) := by
    rw [Earlier, ← List.idxOf_inj hpmem]
    refine or_congr_right (and_congr_right fun hpq => ?_)
    rw [(List.idxOf_inj hpmem).1 hpq]
  rw [hkey]
  refine ⟨h.earlier hperm hp hq, fun hearlier => ?_⟩
  rcases Nat.lt_trichotomy (order.idxOf x) (order.idxOf y) with hlt | heq | hgt
  · exact hlt
  · -- one node joined at one moment only
    obtain rfl := (List.idxOf_inj hxmem).1 heq
    obtain rfl := hp.unique hq hpmem
    simp [Earlier] at hearlier
  · have hback := h.earlier hperm hq hp hgt
    unfold Earlier at hearlier hback
    omega

end Line

namespace Adjacency

variable {a : Adjacency} {order order' : List Nat} {p q u v x y k n : Nat}

theorem firstInFirstOut_of_topologicalOrder_eq_some (h : a.topologicalOrder = some order) :
    a.FirstInFirstOut order := by
  have hperm := (isTopological_of_topologicalOrder_eq_some h).perm
  obtain ⟨-, rfl⟩ := topologicalOrder_eq_some_iff.1 h
  exact (Line.filed_final a).firstInFirstOut hperm

/-! ## The law determines the order -/

namespace FirstInFirstOut

/-- A node stands behind its last predecessor. -/
theorem lastPred_lt (h : a.FirstInFirstOut order) (hperm : order.Perm a.nodes)
    (hp : a.LastPred order x p) : order.idxOf p < order.idxOf x := by
  -- induction on the number of nodes behind `x`, which is smaller for a node behind it
  induction hleft : order.length - order.idxOf x using Nat.strongRecOn generalizing x p with
  | _ left ih =>
    by_contra hnot
    have hmem := (hp.mem_order hperm).1
    have hne : order.idxOf p ≠ order.idxOf x := fun heq => hp.ne ((List.idxOf_inj hmem).1 heq)
    have hlt : order.idxOf x < order.idxOf p := by omega
    have hlen := List.idxOf_lt_length_iff.2 hmem
    -- `p` is no entry, so it has a last predecessor of its own, which stands in front of it
    have hx := mt (mem_entries_iff_idxOf_lt h.entries).2 hp.not_mem_entries
    have hentry : p ∉ a.entries := by
      rw [mem_entries_iff_idxOf_lt h.entries]
      omega
    obtain ⟨q, hq⟩ := exists_lastPred order hp.lt_size.1 hentry
    have hqp := ih _ (by omega) hq rfl
    rcases (h.later x p p q hp hq).1 hlt with hpq | ⟨hpq, -⟩
    · omega
    · exact hq.ne hpq.symm

theorem isTopological (h : a.FirstInFirstOut order) (hperm : order.Perm a.nodes) :
    a.IsTopological order := by
  refine ⟨hperm, fun u v hedge hne => ?_⟩
  have hentry : v ∉ a.entries := fun hv => hne ((mem_entries_iff.1 hv).2 u hedge)
  obtain ⟨p, hp⟩ := exists_lastPred order (a.lt_of_mem_succ hedge).2 hentry
  exact Nat.lt_of_le_of_lt (hp.le u (a.mem_pred_iff.2 hedge) hne) (h.lastPred_lt hperm hp)

/-- Orders that agree on their first nodes, up to `x`, agree on its last predecessor. -/
theorem lastPred_of_take_eq (h : a.FirstInFirstOut order) (hperm : order.Perm a.nodes)
    (htake : order.take k = order'.take k) (hx : order.idxOf x = k) (hp : a.LastPred order x p) :
    a.LastPred order' x p ∧ order'.idxOf p = order.idxOf p := by
  have hidx : ∀ u ∈ a.pred x, u ≠ x → order'.idxOf u = order.idxOf u := by
    intro u hu hne
    have hedge := a.mem_pred_iff.1 hu
    have hmem : u ∈ order := hperm.mem_iff.2 (mem_nodes.2 (a.lt_of_mem_succ hedge).1)
    have hlt := (h.isTopological hperm).forward u x hedge hne
    have hhead := (List.mem_take_iff_idxOf_lt hmem).2 (hx ▸ hlt)
    rw [← (List.take_prefix k order).idxOf_eq_of_mem hhead, htake,
      (List.take_prefix k order').idxOf_eq_of_mem (htake ▸ hhead)]
  exact ⟨hp.congr hidx, hidx p hp.mem hp.ne⟩

/-- A node that comes next in another order with the same first nodes does not come earlier. -/
theorem idxOf_lt_of_take_eq (hperm : order.Perm a.nodes) (hperm' : order'.Perm a.nodes)
    (htake : order.take k = order'.take k) (hx : order.idxOf x = k) (hy : order'.idxOf y = k)
    (hmem : y ∈ order) (hne : x ≠ y) : k < order.idxOf y := by
  have hout : y ∉ order.take k := by
    have hmem' : y ∈ order' := hperm'.mem_iff.2 (hperm.mem_iff.1 hmem)
    rw [htake, List.mem_take_iff_idxOf_lt hmem', hy]
    exact Nat.lt_irrefl k
  rw [List.mem_take_iff_idxOf_lt hmem] at hout
  have hidx : order.idxOf y ≠ k := fun h => hne ((List.idxOf_inj hmem).1 (h.trans hx.symm)).symm
  omega

/-- Two orders with the same first nodes go on with the same one. -/
theorem eq_of_take_eq (h : a.FirstInFirstOut order) (h' : a.FirstInFirstOut order')
    (hperm : order.Perm a.nodes) (hperm' : order'.Perm a.nodes)
    (htake : order.take k = order'.take k) (hk : k < order.length) (hk' : k < order'.length) :
    order[k] = order'[k] := by
  by_cases hhead : k < a.entries.length
  · rw [← h.entries.getElem hhead, ← h'.entries.getElem hhead]
  · by_contra hne
    have hx := (hperm.nodup_iff.2 List.nodup_range).idxOf_getElem k hk
    have hy := (hperm'.nodup_iff.2 List.nodup_range).idxOf_getElem k hk'
    obtain ⟨p, hp⟩ := exists_lastPred order
      (mem_nodes.1 (hperm.mem_iff.1 (List.getElem_mem hk)))
      (mt (mem_entries_iff_idxOf_lt h.entries).1 (by omega))
    obtain ⟨q, hq⟩ := exists_lastPred order'
      (mem_nodes.1 (hperm'.mem_iff.1 (List.getElem_mem hk')))
      (mt (mem_entries_iff_idxOf_lt h'.entries).1 (by omega))
    obtain ⟨hp', hpidx⟩ := h.lastPred_of_take_eq hperm htake hx hp
    obtain ⟨hq', hqidx⟩ := h'.lastPred_of_take_eq hperm' htake.symm hy hq
    -- each of the two nodes would have to join before the other one
    have hmem := hperm.mem_iff.2 (hperm'.mem_iff.1 (List.getElem_mem hk'))
    have hmem' := hperm'.mem_iff.2 (hperm.mem_iff.1 (List.getElem_mem hk))
    have hlt := idxOf_lt_of_take_eq hperm hperm' htake hx hy hmem hne
    have hlt' := idxOf_lt_of_take_eq hperm' hperm htake.symm hy hx hmem' (Ne.symm hne)
    have hxy := (h.later _ _ p q hp hq').1 (by rwa [hx])
    have hyx := (h'.later _ _ q p hq hp').1 (by rwa [hy])
    rcases hxy with hpq | ⟨rfl, hpos⟩
    · rcases hyx with hqp | ⟨rfl, -⟩ <;> omega
    · rcases hyx with hqp | ⟨-, hpos'⟩ <;> omega

/-- No two orders obey the law. -/
theorem unique (h : a.FirstInFirstOut order) (h' : a.FirstInFirstOut order')
    (hperm : order.Perm a.nodes) (hperm' : order'.Perm a.nodes) : order = order' := by
  have hlength : order.length = order'.length := (hperm.trans hperm'.symm).length_eq
  have htake : ∀ k ≤ order.length, order.take k = order'.take k := by
    intro k hk
    induction k with
    | zero => rfl
    | succ k ih =>
      have htake := ih (Nat.le_of_succ_le hk)
      rw [List.take_succ_eq_append_getElem hk, List.take_succ_eq_append_getElem (hlength ▸ hk),
        htake, h.eq_of_take_eq h' hperm hperm' htake hk (hlength ▸ hk)]
  have hall := htake order.length (Nat.le_refl _)
  rwa [List.take_length, hlength, List.take_length] at hall

end FirstInFirstOut

/-- The order is the one that obeys the law. -/
theorem topologicalOrder_eq_some_iff_firstInFirstOut :
    a.topologicalOrder = some order ↔ order.Perm a.nodes ∧ a.FirstInFirstOut order := by
  constructor
  · intro h
    exact ⟨(isTopological_of_topologicalOrder_eq_some h).perm,
      firstInFirstOut_of_topologicalOrder_eq_some h⟩
  · rintro ⟨hperm, h⟩
    obtain ⟨order', h'⟩ := exists_topologicalOrder_iff.2 (h.isTopological hperm).acyclic
    rw [h', (firstInFirstOut_of_topologicalOrder_eq_some h').unique h
      (isTopological_of_topologicalOrder_eq_some h').perm hperm]

end Adjacency

end FlowBubbles
