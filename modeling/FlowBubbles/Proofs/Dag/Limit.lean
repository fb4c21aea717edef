import FlowBubbles.Proofs.Cycles

/-!
# Limits on the passes

Whatever the limit, the passes are the same as without one, up to the pass at which the limit stops
them. So a limit that covers the passes that the graph needs changes nothing, and any other limit is
used up exactly (`KeyedGraph.breakCycles_some_eq`). The graph that is left then has a cycle, since a
pass is only made over a graph with one (`Draft.not_acyclic_of_lt_passes`).
-/

namespace FlowBubbles

variable {κ : Type}

namespace Draft

variable {d : Draft κ} {r : Dag κ} {budget : Nat}

/-- What is reported of a graph whose passes are used up. -/
def stuck (d : Draft κ) : Stuck :=
  ⟨d.rounds, d.graph.adjacency.strongComponents.nontrivial.length⟩

theorem settle_zero (h : d.graph.adjacency.topologicalOrder = none) :
    d.settle 0 = .error d.stuck := by
  rw [settle]
  split
  · rename_i h'
    cases h.symm.trans h'
  · rfl

theorem length_rounds_pass (d : Draft κ) : d.pass.rounds.length = d.rounds.length + 1 := by
  rw [pass, turn, List.length_append, List.length_singleton]

theorem length_rounds_iterate_pass (n : Nat) (d : Draft κ) :
    (pass^[n] d).rounds.length = d.rounds.length + n := by
  induction n generalizing d with
  | zero => rfl
  | succ n ih =>
    rw [Function.iterate_succ_apply, ih, length_rounds_pass]
    omega

theorem length_rounds_le_passes (h : d.settle budget = .ok r) : d.rounds.length ≤ r.passes := by
  obtain ⟨n, -, -, hrounds, -⟩ := exists_passes_of_settle h
  rw [Dag.passes, hrounds, length_rounds_iterate_pass]
  exact Nat.le_add_right _ n

/-- If a graph can be made acyclic at all, every budget that covers the passes that are still needed
gives the same result, and every other one is used up. -/
theorem settle_eq (h : d.settle budget = .ok r) (budget' : Nat) :
    d.settle budget' =
      if r.passes ≤ d.rounds.length + budget' then .ok r else .error (pass^[budget'] d).stuck := by
  fun_induction Draft.settle budget d generalizing budget' with
  | case1 budget d order horder =>
    obtain rfl := Except.ok.inj h
    rw [settle_of_topologicalOrder horder]
    exact (if_pos (Nat.le_add_right d.rounds.length budget')).symm
  | case2 d horder => cases h
  | case3 d horder budget ih =>
    -- at least one more pass is needed
    have hpasses := length_rounds_le_passes h
    rw [length_rounds_pass] at hpasses
    cases budget' with
    | zero => rw [settle_zero horder, if_neg (by omega), Function.iterate_zero_apply]
    | succ budget' =>
      rw [settle_succ horder, ih h, length_rounds_pass, Function.iterate_succ_apply,
        Nat.succ_add_eq_add_succ]

/-- Before the last pass there is a cycle. -/
theorem not_acyclic_of_lt_passes (h : d.settle budget = .ok r) {n : Nat}
    (hlt : d.rounds.length + n < r.passes) : ¬(pass^[n] d).graph.adjacency.Acyclic := by
  fun_induction Draft.settle budget d generalizing n with
  | case1 budget d order horder =>
    obtain rfl := Except.ok.inj h
    exact absurd hlt (Nat.not_lt_of_le (Nat.le_add_right d.rounds.length n))
  | case2 d horder => cases h
  | case3 d horder budget ih =>
    cases n with
    | zero =>
      intro hacyclic
      obtain ⟨order, horder'⟩ := Adjacency.exists_topologicalOrder_iff.2 hacyclic
      cases horder.symm.trans horder'
    | succ n =>
      rw [Function.iterate_succ_apply]
      exact ih h (by rw [length_rounds_pass]; omega)

/-- In a graph with a cycle some component has more than one node. -/
theorem length_nontrivial_pos (h : ¬d.graph.adjacency.Acyclic) :
    0 < d.graph.adjacency.strongComponents.nontrivial.length := by
  obtain ⟨c, hc, hlen⟩ := StrongComponents.exists_nontrivial_iff.2 h
  exact List.length_pos_of_mem (List.mem_filter.2 ⟨hc, decide_eq_true hlen⟩)

end Draft

namespace KeyedGraph

variable {g : KeyedGraph κ} {d : Dag κ}

/-- A limit that covers the passes that are needed without one changes nothing. Any other limit is
used up. -/
theorem breakCycles_some_eq (h : g.breakCycles none = .ok d) (limit : Nat) :
    g.breakCycles (some limit) =
      if d.passes ≤ limit then .ok d
      else .error (Draft.pass^[limit] (Draft.ofGraph g)).stuck := by
  have hsettle := Draft.settle_eq h limit
  rwa [show (Draft.ofGraph g).rounds.length = 0 from rfl, Nat.zero_add] at hsettle

/-- The error after a limit is used up tells the limit and the number of components of more than one
node that are left. -/
theorem error_stuck_iterate_pass (g : KeyedGraph κ) (limit : Nat) :
    (Draft.pass^[limit] (Draft.ofGraph g)).stuck.error =
      .cyclesRemain limit
        (Draft.pass^[limit] (Draft.ofGraph g)).graph.adjacency.strongComponents.nontrivial.length := by
  have hrounds := Draft.length_rounds_iterate_pass limit (Draft.ofGraph g)
  rw [show (Draft.ofGraph g).rounds.length = 0 from rfl, Nat.zero_add] at hrounds
  rw [Stuck.error, Draft.stuck, hrounds]

/-- The result is the graph after so many passes as it counts. -/
theorem graph_eq_iterate_pass {limit : Option Nat} (h : g.breakCycles limit = .ok d) :
    d.graph = (Draft.pass^[d.passes] (Draft.ofGraph g)).graph := by
  obtain ⟨n, -, hgraph, hrounds, -⟩ := Draft.exists_passes_of_settle h
  have hpasses : d.passes = n := by
    rw [Dag.passes, hrounds, Draft.length_rounds_iterate_pass]
    exact Nat.zero_add n
  rw [hpasses, hgraph]

/-- Without a limit a graph is made acyclic by a number of passes. A limit that is not below this
number gives the same result. A limit below it gives the error that tells the limit and the number
of components of more than one node after so many passes, which is not zero. -/
theorem breakCycles_limit (g : KeyedGraph κ) :
    ∃ d, g.breakCycles none = .ok d ∧
      d.graph = (Draft.pass^[d.passes] (Draft.ofGraph g)).graph ∧
      ∀ limit,
        (d.passes ≤ limit → g.breakCycles (some limit) = .ok d) ∧
        (limit < d.passes →
          let left := (Draft.pass^[limit] (Draft.ofGraph g)).graph
          let n := left.adjacency.strongComponents.nontrivial.length
          (g.breakCycles (some limit)).mapError Stuck.error = .error (.cyclesRemain limit n) ∧
            1 ≤ n) := by
  obtain ⟨d, h⟩ := g.exists_breakCycles
  refine ⟨d, h, graph_eq_iterate_pass h, fun limit => ⟨fun hle => ?_, fun hlt => ⟨?_, ?_⟩⟩⟩
  · rw [breakCycles_some_eq h, if_pos hle]
  · rw [breakCycles_some_eq h, if_neg (Nat.not_le_of_lt hlt), Except.mapError,
      error_stuck_iterate_pass]
  · have hcycle : ¬(Draft.pass^[limit] (Draft.ofGraph g)).graph.adjacency.Acyclic :=
      Draft.not_acyclic_of_lt_passes h (by simpa [Draft.ofGraph] using hlt)
    exact Draft.length_nontrivial_pos hcycle

end KeyedGraph

end FlowBubbles
