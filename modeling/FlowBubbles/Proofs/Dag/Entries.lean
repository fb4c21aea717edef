import FlowBubbles.Proofs.Dag.Reachability

/-!
# The entries of the acyclic graph

An edge into a node stays in the result unless it is a back edge, and a flipped back edge leads to
a node that an advancing edge leads to as well (`DepthFirst.exists_advances_source`). So the entries
of the result are the nodes that only loops and back edges lead to in the given graph
(`KeyedGraph.mem_entries_iff_of_breakCycles`). If the first node reaches all nodes, it is the only
entry, even if edges lead back to it.
-/

namespace FlowBubbles

open DepthFirst

/-- In an acyclic graph a node that reaches all nodes is the only entry. -/
theorem Adjacency.Acyclic.entries_eq_singleton {a : Adjacency} {root : Nat} (h : a.Acyclic)
    (hroot : root < a.size) (hall : ∀ v < a.size, a.Reaches root v) : a.entries = [root] := by
  obtain ⟨u, hu, hreach⟩ := h.exists_entry hroot
  have huroot : u = root := h u root ⟨hreach, hall u (a.lt_of_mem_entries hu)⟩
  have hmem : ∀ v, v ∈ a.entries ↔ v ∈ [root] := by
    intro v
    rw [List.mem_singleton]
    refine ⟨fun hv => ?_, fun hv => by rwa [hv, ← huroot]⟩
    -- no edge enters the entry, so the root does not reach it from another node
    obtain ⟨hlt, hpred⟩ := mem_entries_iff.1 hv
    by_contra hne
    exact (hall v hlt).mem_of_closed (S := (· ≠ v)) (fun x y hx hedge hy =>
      hx (hpred x (hy ▸ hedge))) (Ne.symm hne) rfl
  exact List.perm_singleton.1
    ((List.perm_ext_iff_of_nodup a.nodup_entries (List.nodup_singleton root)).2 hmem)

namespace KeyedGraph

variable {κ : Type} {g : KeyedGraph κ} {limit : Option Nat} {d : Dag κ} {v : Nat}

/-- The entries of the result are the nodes that only loops and back edges lead to in the given
graph. -/
theorem mem_entries_iff_of_breakCycles (h : g.breakCycles limit = .ok d) :
    v ∈ d.graph.adjacency.entries ↔
      v < g.size ∧ ∀ u, v ∈ g.adjacency.succ u → u ≠ v →
        ⟨u, v⟩ ∈ g.adjacency.strongComponents.backEdges := by
  have hsize : d.graph.adjacency.size = g.size := size_of_breakCycles h
  rw [Adjacency.mem_entries_iff, hsize]
  refine and_congr_right fun _ => ⟨fun hpred u hedge hne => ?_, fun hback x hedge => ?_⟩
  · by_contra hback
    exact hne (hpred u ((mem_succ_iff_of_breakCycles h).2 (.inl ⟨hedge, hback⟩)))
  · rcases (mem_succ_iff_of_breakCycles h).1 hedge with ⟨hedge, hnot⟩ | hflip
    · by_contra hne
      exact hnot (hback x hedge hne)
    · -- the source of a back edge has an advancing edge into it, which is no back edge
      obtain ⟨y, hadv⟩ := exists_advances_source hflip
      have hne : y ≠ v := fun heq => Nat.lt_irrefl _ (heq ▸ hadv.2)
      exact absurd (hback y hadv.1 hne) (not_mem_backEdges_of_advances hadv)

/-- If the first node reaches all nodes of the given graph, it is the only entry of the result. -/
theorem entries_of_breakCycles (h : g.breakCycles limit = .ok d) (hpos : 0 < g.size)
    (hall : ∀ v < g.size, g.adjacency.Reaches 0 v) : d.graph.adjacency.entries = [0] := by
  have hsize : d.graph.adjacency.size = g.size := size_of_breakCycles h
  refine d.isTopological_order.acyclic.entries_eq_singleton (hsize ▸ hpos) fun v hv => ?_
  exact (reaches_first_iff_of_breakCycles h).2 (hall v (hsize ▸ hv))

end KeyedGraph

namespace Dag

variable {κ : Type} [DecidableEq κ] [KeyText κ]

/-- A graph with one entry has one tree from there, whether the key of the entry is given or not. -/
theorem dominatorTree_of_one_entry (d : Dag κ) {root : Nat} {k : κ}
    (hentries : d.graph.adjacency.entries = [root]) (hk : d.graph.node? k = some root)
    (allow : Bool) :
    d.dominatorTree none allow = .ok (d.rootedTree root) ∧
      d.dominatorTree (some k) allow = .ok (d.rootedTree root) := by
  have hroot : root < d.graph.size := KeyedGraph.lt_size_of_node?_eq_some hk
  have hnil : (d.rootedTree root).unreachable = [] := by
    refine List.eq_nil_iff_forall_not_mem.2 fun v hv => ?_
    obtain ⟨hlt, hnot⟩ := (d.mem_unreachable_rootedTree hroot).1 hv
    obtain ⟨u, hu, hreach⟩ := d.isTopological_order.acyclic.exists_entry hlt
    rw [hentries, List.mem_singleton] at hu
    exact hnot (hu ▸ hreach)
  have hpos : 0 < d.graph.size := Nat.zero_lt_of_lt hroot
  refine ⟨d.dominatorTree_eq_ok_iff.2 ⟨?_, .inl hnil⟩,
    d.dominatorTree_eq_ok_iff.2 ⟨d.anyTree_some hk, .inl hnil⟩⟩
  rw [d.anyTree_none hpos]
  rcases d.naturalTree_cases hpos with ⟨u, hu, htree⟩ | ⟨hseveral, -⟩
  · obtain rfl : root = u := List.singleton_inj.1 (hentries.symm.trans hu)
    exact htree
  · simp [hentries] at hseveral

end Dag

namespace KeyedGraph

variable {κ : Type} [DecidableEq κ] [KeyText κ]

/-- Making a graph acyclic leaves as entries the nodes that only loops and back edges lead to. So if
the first key reaches all nodes, even if edges lead back to it, its node is the only entry, and it
is the root of one and the same tree of all nodes whether the key is given or not. -/
theorem breakCycles_entries (g : KeyedGraph κ) :
    ∃ d, g.breakCycles none = .ok d ∧
      (∀ v, v ∈ d.graph.adjacency.entries ↔
        v < g.size ∧ ∀ e ∈ g.edges, e.target = v → e.source ≠ v →
          e ∈ g.adjacency.strongComponents.backEdges) ∧
      ∀ k, g.key? 0 = some k → (∀ v < g.size, g.adjacency.Reaches 0 v) →
        d.graph.adjacency.entries = [0] ∧
        ∀ allow, ∃ t, d.dominatorTree none allow = .ok t ∧
          d.dominatorTree (some k) allow = .ok t ∧ t.root = 0 ∧ t.superRoot = none ∧
          ∀ v < g.size, t.contains v = true := by
  obtain ⟨d, h⟩ := g.exists_breakCycles
  refine ⟨d, h, fun v => ?_, fun k hk hall => ?_⟩
  · rw [mem_entries_iff_of_breakCycles h]
    refine and_congr_right fun _ => ⟨fun hback e he ht hne => ?_, fun hback u hedge hne => ?_⟩
    · subst ht
      exact hback e.source (Digraph.mem_succ_adjacency.2 (Array.mem_toList_iff.2 he)) hne
    · have he := Array.mem_toList_iff.1 (Digraph.mem_succ_adjacency.1 hedge)
      exact hback ⟨u, v⟩ he rfl hne
  · have hnode := node?_of_breakCycles h hk
    have hroot : 0 < d.graph.size := lt_size_of_node?_eq_some hnode
    have hpos : 0 < g.size := size_of_breakCycles h ▸ hroot
    have hentries := entries_of_breakCycles h hpos hall
    refine ⟨hentries, fun allow => ?_⟩
    obtain ⟨hnone, hsome⟩ := d.dominatorTree_of_one_entry hentries hnode allow
    refine ⟨_, hnone, hsome, rfl, rfl, fun v hv => ?_⟩
    have hreach := (reaches_first_iff_of_breakCycles h).2 (hall v hv)
    exact ((d.agreesWith_rootedTree hroot).contains_iff v).2 (d.reflTransGen_leads hreach)

/-- A loop with another one inside it, and edges back to the first node. -/
def headedLoop : KeyedGraph String where
  labels := #["head", "body", "latch"]
  edges := #[⟨0, 1⟩, ⟨1, 2⟩, ⟨2, 1⟩, ⟨2, 0⟩, ⟨0, 0⟩]
  edges_lt := by decide
  nodup := by decide

theorem entries_headedLoop :
    (∀ v < headedLoop.size, headedLoop.adjacency.Reaches 0 v) ∧
      ∃ d, headedLoop.breakCycles none = .ok d ∧ d.graph.adjacency.entries = [0] ∧
        ∃ t, d.dominatorTree none false = .ok t ∧ d.dominatorTree (some "head") false = .ok t ∧
          t.root = 0 ∧ t.superRoot = none ∧ ∀ v < headedLoop.size, t.contains v = true := by
  have hall : ∀ v < headedLoop.size, headedLoop.adjacency.Reaches 0 v := by
    have hfirst : headedLoop.adjacency.Reaches 0 1 := .single (by decide)
    intro v hv
    match v, hv with
    | 0, _ => exact .refl 0
    | 1, _ => exact hfirst
    | 2, _ => exact hfirst.tail (by decide)
  obtain ⟨d, hd, -, htree⟩ := breakCycles_entries headedLoop
  obtain ⟨hentries, htrees⟩ := htree "head" rfl hall
  exact ⟨hall, d, hd, hentries, htrees false⟩

end KeyedGraph

end FlowBubbles
