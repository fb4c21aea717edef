import FlowBubbles.Analysis.Basic
import FlowBubbles.Proofs.Checked.Rooting
import FlowBubbles.Proofs.KeyedGraph.History

/-!
# Analyses stay in range and end

A graph is built, analysed and asked for by checked computations throughout: the rows of the edges,
the tables of the searches and of the tree, the passes, and the queries of the tree of the report.
Whatever the history of the graph and whatever the configuration, none of them reads or writes
outside a table, takes away more than there is, or goes round without an end
(`History.analysis_in_range`).
-/

namespace FlowBubbles

namespace Checked

/-! ## Bubbles -/

namespace Dag

variable {κ : Type} (x : Dag κ)

/-- The rank of a node, and 0 for what is no node. -/
def rankOf (v : Nat) : Nat := (x.ranks.get? v).getD 0

/-- The bubbles of a tree over the graph, by the rank of their starts. -/
def bubbles? (t : Tree) : Option (List Bubble) := do
  let starts ← filter? (fun v => (x.graph.storage.inDegree? v).map (1 < ·)) t.nodes
  return starts.filterMap fun start =>
    (Bubble.latest x.rankOf (t.childrenOf start)).map (⟨start, ·⟩)

end Dag

/-! ## Analyses -/

/-- The result of a checked analysis. -/
structure Report (κ : Type) where
  dag : Dag κ
  tree : Tree
  bubbles : List Bubble
  includesSuperRoot : Bool

/-- Makes the graph acyclic, builds the dominator tree and finds the bubbles. -/
noncomputable def analyze? {κ : Type} [KeyText κ] (c : Config κ) (x : Keyed κ) :
    Option (Except Error (Report κ)) :=
  andThen (breakCycles? x c.passLimit) fun d =>
    andThen (d.dominatorTree? c.entry c.allowUnreachable) fun t =>
      (d.bubbles? t).map fun bubbles => .ok ⟨d, t, bubbles, c.includeSuperRoot⟩

end Checked

open Checked

section

variable {κ : Type} [DecidableEq κ] [KeyText κ]

/-- Whether a checked report has the acyclic graph and the bubbles of a report, and its tree answers
every query, about any numbers, as the tree of the report does. -/
structure Checked.Report.Shows (y : Report κ) (r : FlowBubbles.Report κ) : Prop where
  dag : y.dag = r.dag.stored
  tree : y.tree.Answers r.tree
  bubbles : y.bubbles = r.bubbles
  includesSuperRoot : y.includesSuperRoot = r.includesSuperRoot

omit [KeyText κ] in
theorem Dag.rankOf_stored (d : Dag κ) (v : Nat) : d.stored.rankOf v = d.ranks.get v := by
  have htop := d.isTopological_order
  by_cases hv : v < d.order.length
  · have hread : d.stored.ranks.get? v = some (d.ranks.get v) := Table.get?_of_lt hv
    rw [Checked.Dag.rankOf, hread, Option.getD_some]
  · have houtside : d.stored.ranks.get? v = none := if_neg hv
    have hmem : v ∉ d.order := fun hmem => hv (htop.length_eq ▸ htop.mem_iff.1 hmem)
    rw [Checked.Dag.rankOf, houtside, ranks, NodeMap.get_positions htop.nodup, if_neg hmem]
    rfl

/-- The nodes of the tree are nodes of the graph, so that their edges can be counted. -/
theorem Dag.bubbles?_stored {d : Dag κ} {t : DominatorTree} {x : Tree} {n : Nat}
    {entry : Option κ} {allow : Bool} (h : d.dominatorTree entry allow = .ok t)
    (hx : x.Shows n t) : d.stored.bubbles? x = some (d.bubbles t) := by
  have hstarts : filter? (fun v => (d.stored.graph.storage.inDegree? v).map (1 < ·)) t.nodes =
      some (t.nodes.filter fun v => 1 < (d.graph.adjacency.pred v).length) :=
    filter?_eq_some fun v hv => by
      have hdegree : d.stored.graph.storage.inDegree? v =
          some (d.graph.adjacency.pred v).length :=
        Digraph.inDegree?_storage (d.lt_size_of_mem_nodes h hv)
      rw [hdegree, Option.map_some]
  have hrank : d.stored.rankOf = d.ranks.get := funext d.rankOf_stored
  simp only [Checked.Dag.bubbles?, hx.answers.nodes, hstarts, hrank, hx.childrenOf,
    Option.bind_eq_bind, Option.bind_some]
  rfl

theorem outcome_analyze_eq_bind (c : Config κ) (g : KeyedGraph κ) :
    (analyze c g).outcome = ((g.breakCycles c.passLimit).mapError Stuck.error >>= fun d =>
      d.dominatorTree c.entry c.allowUnreachable >>= fun t =>
        .ok ⟨d, t, d.bubbles t, c.includeSuperRoot⟩) := by
  rw [analyze]
  cases g.breakCycles c.passLimit with
  | error s => rfl
  | ok d =>
    simp only [Except.mapError, bind, Except.bind]
    cases d.dominatorTree c.entry c.allowUnreachable <;> rfl

/-- An analysis of a stored graph comes to the same error, or to the same report. -/
theorem KeyedGraph.analyze?_stored (c : Config κ) (g : KeyedGraph κ) :
    Matches Checked.Report.Shows (analyze? c g.stored) (analyze c g).outcome := by
  have hbroken : Matches (fun x (d : Dag κ) => x = d.stored) (breakCycles? g.stored c.passLimit)
      ((g.breakCycles c.passLimit).mapError Stuck.error) := by
    rw [g.breakCycles?_eq_some]
    cases g.breakCycles c.passLimit with
    | error s => rfl
    | ok d => exact ⟨_, rfl, rfl⟩
  rw [outcome_analyze_eq_bind]
  refine hbroken.andThen fun x d _ hx => ?_
  subst hx
  refine (d.dominatorTree?_stored c.entry c.allowUnreachable).andThen fun x t ht hshows => ?_
  obtain ⟨n, hshows⟩ := hshows
  rw [Dag.bubbles?_stored ht hshows]
  exact ⟨_, rfl, rfl, hshows.answers, rfl, rfl⟩

/-! ## Histories -/

/-- The stored graph at the start. -/
def Origin.stored? : Origin κ → Option (Except Error (Keyed κ))
  | .empty => some (.ok .empty)
  | .lists keys edges => Keyed.ofLists? keys edges

omit [KeyText κ] in
/-- The stored graph after an operation. -/
noncomputable def Operation.applyStored? (x : Keyed κ) : Operation κ → Option (Except Error (Keyed κ))
  | .addNode key => some (.ok (x.addNode key))
  | .addEdge source target => andThen (x.addEdge? source target) fun joined => some (.ok joined.1)
  | .breakCycles limit => (breakCycles? x limit).map fun
    | .ok d => .ok d.graph
    | .error _ => .ok x

/-- The stored graph after the listed operations. -/
noncomputable def applyAll? (x : Keyed κ) : List (Operation κ) → Option (Except Error (Keyed κ))
  | [] => some (.ok x)
  | o :: ops => andThen (o.applyStored? x) (applyAll? · ops)

/-- The stored graph that a history leads to. -/
noncomputable def History.stored? (h : History κ) : Option (Except Error (Keyed κ)) :=
  Checked.andThen h.origin.stored? (applyAll? · h.operations)

theorem Origin.stored?_eq_some (o : Origin κ) :
    o.stored? = some (o.graph.map KeyedGraph.stored) := by
  cases o with
  | empty =>
    rw [stored?, ← KeyedGraph.stored_empty]
    rfl
  | lists ks es => exact KeyedGraph.ofLists?_eq_some ks es

omit [KeyText κ] in
theorem Operation.applyStored?_stored (g : KeyedGraph κ) (o : Operation κ) :
    o.applyStored? g.stored = some (.ok (o.apply g).stored) := by
  cases o with
  | addNode k => rw [applyStored?, Keyed.addNode, KeyedGraph.named_stored]; rfl
  | addEdge s t => rw [applyStored?, KeyedGraph.addEdge?_stored]; rfl
  | breakCycles limit =>
    rw [applyStored?, KeyedGraph.breakCycles?_eq_some, apply]
    cases g.breakCycles limit <;> rfl

omit [KeyText κ] in
theorem applyAll?_stored (ops : List (Operation κ)) (g : KeyedGraph κ) :
    applyAll? g.stored ops = some (.ok (ops.foldl Operation.apply g).stored) := by
  induction ops generalizing g with
  | nil => rfl
  | cons o ops ih => rw [applyAll?, Operation.applyStored?_stored, andThen_ok, ih, List.foldl_cons]

theorem History.stored?_eq_some (h : History κ) :
    h.stored? = some (h.graph.map KeyedGraph.stored) := by
  rw [stored?, h.origin.stored?_eq_some, graph]
  cases h.origin.graph with
  | error e => rfl
  | ok g => exact applyAll?_stored h.operations g

/-- A history is refused with the error of its lists, or leads to a stored graph. Under any
configuration the analysis of this graph ends, with the same error or with a report whose tree
answers every query about any numbers. On the way nothing is read or written outside a table, no
number falls below zero, and every loop comes to its end, since any of these would leave a checked
computation without a result. -/
theorem History.analysis_in_range (h : History κ) :
    match h.graph with
    | .error e => h.stored? = some (.error e)
    | .ok g => h.stored? = some (.ok g.stored) ∧
      ∀ c : Config κ,
        match (analyze c g).outcome with
        | .error e => analyze? c g.stored = some (.error e)
        | .ok r => ∃ y, analyze? c g.stored = some (.ok y) ∧ y.Shows r := by
  have hstored := h.stored?_eq_some
  cases hg : h.graph with
  | error e => rw [hstored, hg]; rfl
  | ok g =>
    refine ⟨by rw [hstored, hg]; rfl, fun c => ?_⟩
    have hmatches := g.analyze?_stored c
    cases hout : (analyze c g).outcome with
    | error e => rw [hout] at hmatches; exact hmatches
    | ok r => rw [hout] at hmatches; exact hmatches

end

end FlowBubbles
