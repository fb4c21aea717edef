import FlowBubbles.Proofs.Bubble
import FlowBubbles.Proofs.Dag.Limit
import FlowBubbles.Proofs.Dag.Reachability
import FlowBubbles.Proofs.KeyedGraph.Growth
import Mathlib.Data.List.Sort

/-!
# The outcome of an analysis

An analysis fails for one of four reasons, which are looked at in this order: the limit on the
passes is too small, there is no node, the key of the root is not known, or the root does not reach
all nodes although it should (`stages_cases`). Nothing else can go wrong, since a graph without
cycles has entries and these reach all nodes. Observers are told only after the stages succeeded,
up to the first one that refuses (`accept_or_refuse`).
-/

namespace FlowBubbles

/-! ## Telling observers -/

section

variable {κ σ : Type} (g : KeyedGraph κ) (r : Report κ)

/-- What observers that are told one after the other make of the state. -/
def told (os : List (Observer κ σ)) (s : σ) : σ := os.foldl (fun s o => (o.notify g r s).2) s

/-- Whether observers that are told one after the other all accept. -/
def Accept : List (Observer κ σ) → σ → Prop
  | [], _ => True
  | o :: rest, s => (o.notify g r s).1 = .ok () ∧ Accept rest (o.notify g r s).2

/-- Whether `o` is told after `before`, and is the first one that refuses. -/
def Refuse (before : List (Observer κ σ)) (o : Observer κ σ) (e : Error) (s : σ) : Prop :=
  Accept g r before s ∧ (o.notify g r (told g r before s)).1 = .error e

variable {g r} {os before rest : List (Observer κ σ)} {o : Observer κ σ} {e : Error} {s : σ}

/-- Observers that all accept are all told. -/
theorem notifyAll_of_accept (h : Accept g r os s) : notifyAll g r os s = (.ok (), told g r os s) := by
  induction os generalizing s with
  | nil => rfl
  | cons o rest ih =>
    have hrest := ih h.2
    rw [notifyAll]
    split
    · rename_i s' hs'
      rw [hs'] at hrest
      rw [hrest, told, told, List.foldl_cons, hs']
    · rename_i e s' hs'
      simpa [hs'] using h.1

/-- The first observer that refuses is told, and no observer after it. -/
theorem notifyAll_of_refuse (h : Refuse g r before o e s) (rest : List (Observer κ σ)) :
    notifyAll g r (before ++ o :: rest) s =
      (.error (.observerFailed (o.name ++ ": " ++ e.message)), told g r (before ++ [o]) s) := by
  obtain ⟨haccept, hrefuse⟩ := h
  induction before generalizing s with
  | nil =>
    rw [List.nil_append, notifyAll]
    split
    · rename_i s' hs'
      simp [told, hs'] at hrefuse
    · rename_i e' s' hs'
      obtain rfl : e' = e := by simpa [told, hs'] using hrefuse
      simp [told, hs']
  | cons o' before ih =>
    have hrest := ih haccept.2 hrefuse
    rw [List.cons_append, notifyAll]
    split
    · rename_i s' hs'
      rw [hs'] at hrest
      rw [hrest, told, told, List.cons_append, List.foldl_cons, hs']
    · rename_i e' s' hs'
      simpa [hs'] using haccept.1

/-- Either all observers accept, or there is a first one that refuses. -/
theorem accept_or_refuse (os : List (Observer κ σ)) (s : σ) :
    Accept g r os s ∨ ∃ before o rest e, os = before ++ o :: rest ∧ Refuse g r before o e s := by
  induction os generalizing s with
  | nil => exact .inl trivial
  | cons o rest ih =>
    cases ho : (o.notify g r s).1 with
    | error e => exact .inr ⟨[], o, rest, e, rfl, trivial, ho⟩
    | ok u =>
      rcases ih (o.notify g r s).2 with haccept | ⟨before, o', rest', e, rfl, haccept, hrefuse⟩
      · exact .inl ⟨ho, haccept⟩
      · exact .inr ⟨o :: before, o', rest', e, rfl, ⟨ho, haccept⟩, hrefuse⟩

end

/-! ## The tree -/

namespace Dag

variable {κ : Type} [DecidableEq κ] [KeyText κ] (d : Dag κ) {entry : Option κ} {k : κ} {root : Nat}

theorem dominatorTree_of_empty (hsize : d.graph.size = 0) (allow : Bool) :
    d.dominatorTree entry allow = .error .emptyGraph := by
  have hany : d.anyTree entry = .error .emptyGraph := by
    unfold anyTree
    exact if_pos (by simp [Digraph.isEmpty, hsize])
  rw [dominatorTree, hany]
  rfl

theorem dominatorTree_of_unknown (hsize : d.graph.size ≠ 0) (hk : k ∉ d.graph.keys)
    (allow : Bool) :
    d.dominatorTree (some k) allow = .error (.unknownNode (KeyText.quoted k)) := by
  have hany : d.anyTree (some k) = .error (.unknownNode (KeyText.quoted k)) := by
    have hempty : ¬d.graph.isEmpty = true := by simpa [Digraph.isEmpty] using hsize
    simp [anyTree, hempty, KeyedGraph.node?_eq_none_iff.2 hk]
  rw [dominatorTree, hany]
  rfl

/-- Without a key for the root there is always a tree. -/
theorem exists_dominatorTree_none (hsize : d.graph.size ≠ 0) (allow : Bool) :
    ∃ t, d.dominatorTree none allow = .ok t := by
  have hpos := Nat.pos_of_ne_zero hsize
  rcases d.naturalTree_cases hpos with ⟨root, hentries, htree⟩ | ⟨hseveral, htree⟩
  · -- the only entry reaches all nodes
    have hroot : root < d.graph.size := d.graph.adjacency.lt_of_mem_entries (by simp [hentries])
    have hnil : (d.rootedTree root).unreachable = [] := by
      refine List.eq_nil_iff_forall_not_mem.2 fun v hv => ?_
      obtain ⟨hlt, hnot⟩ := (d.mem_unreachable_rootedTree hroot).1 hv
      obtain ⟨u, hu, hreach⟩ := d.isTopological_order.acyclic.exists_entry hlt
      rw [hentries, List.mem_singleton] at hu
      exact hnot (hu ▸ hreach)
    exact ⟨_, d.dominatorTree_eq_ok_iff.2 ⟨(d.anyTree_none hpos).trans htree, .inl hnil⟩⟩
  · exact ⟨_, d.dominatorTree_eq_ok_iff.2
      ⟨(d.anyTree_none hpos).trans htree, .inl d.unreachable_joinedTree⟩⟩

/-- With the key of a node there is a tree unless nodes are unreachable and may not be. -/
theorem dominatorTree_of_known (hk : d.graph.node? k = some root) (allow : Bool) :
    d.dominatorTree (some k) allow =
      if (d.rootedTree root).unreachable.isEmpty || allow then .ok (d.rootedTree root)
      else .error (.unreachableNodes (d.rootedTree root).unreachable) := by
  rw [dominatorTree, d.anyTree_some hk]
  rfl

omit [DecidableEq κ] [KeyText κ] in
/-- The unreachable nodes of a tree below a node, as a list that is in ascending order. -/
theorem unreachable_rootedTree_eq_iff (hroot : root < d.graph.size) {vs : List Nat} :
    vs = (d.rootedTree root).unreachable ↔
      vs.Pairwise (· < ·) ∧
        ∀ w, w ∈ vs ↔ w < d.graph.size ∧ ¬d.graph.adjacency.Reaches root w := by
  constructor
  · rintro rfl
    exact ⟨Adjacency.pairwise_unreachable, fun w => d.mem_unreachable_rootedTree hroot⟩
  · rintro ⟨hsorted, hmem⟩
    refine hsorted.eq_of_mem_iff Adjacency.pairwise_unreachable fun w => ?_
    rw [hmem, ← d.mem_unreachable_rootedTree hroot]

end Dag

/-! ## The stages -/

section

variable {κ : Type} [DecidableEq κ] (c : Config κ) (g : KeyedGraph κ) (d : Dag κ)

/-- Whether the limit is smaller than the number of passes that turned edges in `d`. -/
def Config.StopsShort : Prop := ∃ limit, c.passLimit = some limit ∧ limit < d.passes

/-- Whether a root is asked for by the key `k`, which is not in the graph. -/
def Config.Unknown (k : κ) : Prop := c.entry = some k ∧ k ∉ g.keys

/-- Whether a root is asked for by the key of the node `v`. -/
def Config.RootedAt (v : Nat) : Prop := ∃ k, c.entry = some k ∧ g.key? v = some k

variable {c g} {k k' : κ} {v w : Nat}

omit [DecidableEq κ] in
theorem Config.Unknown.eq (h : c.Unknown g k) (h' : c.Unknown g k') : k = k' :=
  Option.some.inj (h.1.symm.trans h'.1)

theorem Config.RootedAt.eq (h : c.RootedAt g v) (h' : c.RootedAt g w) : v = w := by
  obtain ⟨k, hk, hv⟩ := h
  obtain ⟨k', hk', hw⟩ := h'
  obtain rfl : k = k' := Option.some.inj (hk.symm.trans hk')
  rw [← KeyedGraph.node?_eq_some_iff] at hv hw
  exact Option.some.inj (hv.symm.trans hw)

/-- A key that names a node is no unknown one. -/
theorem Config.RootedAt.not_unknown (h : c.RootedAt g v) : ¬c.Unknown g k := by
  rintro ⟨hk, hmem⟩
  obtain ⟨k', hk', hv⟩ := h
  obtain rfl : k = k' := Option.some.inj (hk.symm.trans hk')
  rw [← KeyedGraph.node?_eq_some_iff, KeyedGraph.node?_eq_none_iff.2 hmem] at hv
  cases hv

theorem Config.RootedAt.lt_size (h : c.RootedAt g v) : v < g.size := by
  obtain ⟨k, -, hv⟩ := h
  exact KeyedGraph.lt_size_of_node?_eq_some (KeyedGraph.node?_eq_some_iff.2 hv)

end

section

variable {κ : Type} [DecidableEq κ] [KeyText κ] {c : Config κ} {g : KeyedGraph κ} {d : Dag κ}

/-- What comes of the stages if the limit is not in the way. -/
theorem outcome_analyze_eq (h : g.breakCycles none = .ok d) (hlimit : ¬c.StopsShort d) :
    (analyze c g).outcome =
      (d.dominatorTree c.entry c.allowUnreachable).map fun t =>
        ⟨d, t, d.bubbles t, c.includeSuperRoot⟩ := by
  have hbreak : g.breakCycles c.passLimit = .ok d := by
    cases hpass : c.passLimit with
    | none => exact h
    | some limit =>
      have hle : d.passes ≤ limit := Nat.le_of_not_lt fun hlt => hlimit ⟨limit, hpass, hlt⟩
      rw [KeyedGraph.breakCycles_some_eq h, if_pos hle]
  simp only [analyze, hbreak]
  cases d.dominatorTree c.entry c.allowUnreachable <;> rfl

/-- A limit that is in the way is used up. -/
theorem outcome_analyze_of_stopsShort (h : g.breakCycles none = .ok d) (hlimit : c.StopsShort d) :
    ∃ limit n, (analyze c g).outcome = .error (.cyclesRemain limit n) := by
  obtain ⟨limit, hpass, hlt⟩ := hlimit
  have hstuck := KeyedGraph.breakCycles_some_eq h limit
  rw [if_neg (Nat.not_le_of_lt hlt)] at hstuck
  have hout : (analyze c g).outcome =
      .error (Draft.pass^[limit] (Draft.ofGraph g)).stuck.error := by
    simp only [analyze, hpass, hstuck]
  rw [KeyedGraph.error_stuck_iterate_pass] at hout
  exact ⟨limit, _, hout⟩

/-- If a root is asked for that is a node of the graph, only unreachable nodes can be in the way. -/
theorem outcome_analyze_of_rootedAt (h : g.breakCycles none = .ok d) (hlimit : ¬c.StopsShort d)
    {v : Nat} (hv : c.RootedAt g v) :
    ((d.rootedTree v).unreachable = [] ∨ c.allowUnreachable = true →
      ∃ r, (analyze c g).outcome = .ok r) ∧
    ((d.rootedTree v).unreachable ≠ [] → c.allowUnreachable = false →
      (analyze c g).outcome = .error (.unreachableNodes (d.rootedTree v).unreachable)) := by
  obtain ⟨k, hentry, hkey⟩ := hv
  rw [outcome_analyze_eq h hlimit, hentry,
    d.dominatorTree_of_known (KeyedGraph.node?_of_breakCycles h hkey)]
  constructor
  · intro hreach
    rw [if_pos (by simpa using hreach)]
    exact ⟨_, rfl⟩
  · intro hne hallow
    rw [if_neg (by simp [hne, hallow])]
    rfl

/-- The stages end in one of five ways. -/
theorem stages_cases (c : Config κ) (h : g.breakCycles none = .ok d) :
    (c.StopsShort d ∧ ∃ limit n, (analyze c g).outcome = .error (.cyclesRemain limit n)) ∨
      (¬c.StopsShort d ∧ g.size = 0 ∧ (analyze c g).outcome = .error .emptyGraph) ∨
      (¬c.StopsShort d ∧ g.size ≠ 0 ∧ ∃ k, c.Unknown g k ∧
        (analyze c g).outcome = .error (.unknownNode (KeyText.quoted k))) ∨
      (¬c.StopsShort d ∧ ∃ v, c.RootedAt g v ∧ c.allowUnreachable = false ∧
        (d.rootedTree v).unreachable ≠ [] ∧
        (analyze c g).outcome = .error (.unreachableNodes (d.rootedTree v).unreachable)) ∨
      (¬c.StopsShort d ∧ g.size ≠ 0 ∧ (∀ k, ¬c.Unknown g k) ∧
        (∀ v, c.RootedAt g v → c.allowUnreachable = true ∨ (d.rootedTree v).unreachable = []) ∧
        ∃ r, (analyze c g).outcome = .ok r) := by
  have hsize : d.graph.size = g.size := KeyedGraph.size_of_breakCycles h
  by_cases hlimit : c.StopsShort d
  · exact .inl ⟨hlimit, outcome_analyze_of_stopsShort h hlimit⟩
  by_cases hzero : g.size = 0
  · refine .inr (.inl ⟨hlimit, hzero, ?_⟩)
    rw [outcome_analyze_eq h hlimit, d.dominatorTree_of_empty (hsize.trans hzero)]
    rfl
  cases hentry : c.entry with
  | none =>
    obtain ⟨t, ht⟩ := d.exists_dominatorTree_none (hsize ▸ hzero) c.allowUnreachable
    refine .inr (.inr (.inr (.inr ⟨hlimit, hzero, ?_, ?_, ?_⟩)))
    · simp [Config.Unknown, hentry]
    · simp [Config.RootedAt, hentry]
    · rw [outcome_analyze_eq h hlimit, hentry, ht]
      exact ⟨_, rfl⟩
  | some k =>
    by_cases hk : k ∈ g.keys
    · obtain ⟨v, hv⟩ := List.getElem?_of_mem hk
      have hrooted : c.RootedAt g v := ⟨k, hentry, hv ▸ Array.getElem?_toList.symm⟩
      obtain ⟨hok, herror⟩ := outcome_analyze_of_rootedAt h hlimit hrooted
      by_cases hreach : (d.rootedTree v).unreachable = [] ∨ c.allowUnreachable = true
      · refine .inr (.inr (.inr (.inr ⟨hlimit, hzero, fun k' => hrooted.not_unknown, ?_, hok hreach⟩)))
        exact fun w hw => hrooted.eq hw ▸ hreach.symm
      · rw [not_or, Bool.not_eq_true] at hreach
        exact .inr (.inr (.inr (.inl ⟨hlimit, v, hrooted, hreach.2, hreach.1,
          herror hreach.1 hreach.2⟩)))
    · refine .inr (.inr (.inl ⟨hlimit, hzero, k, ⟨hentry, hk⟩, ?_⟩))
      have hk' : k ∉ d.graph.keys := by
        rwa [KeyedGraph.keys, KeyedGraph.labels_of_breakCycles h]
      rw [outcome_analyze_eq h hlimit, hentry, d.dominatorTree_of_unknown (hsize ▸ hzero) hk']
      rfl

/-! ## Each outcome -/

theorem outcome_eq_cyclesRemain_iff (h : g.breakCycles none = .ok d) :
    (∃ limit n, (analyze c g).outcome = .error (.cyclesRemain limit n)) ↔ c.StopsShort d := by
  rcases stages_cases c h with ⟨hs, limit, n, ho⟩ | ⟨hs, -, ho⟩ | ⟨hs, -, k, -, ho⟩ |
    ⟨hs, v, -, -, -, ho⟩ | ⟨hs, -, -, -, r, ho⟩
  all_goals simp [ho, hs]

theorem outcome_eq_emptyGraph_iff (h : g.breakCycles none = .ok d) :
    (analyze c g).outcome = .error .emptyGraph ↔ ¬c.StopsShort d ∧ g.size = 0 := by
  rcases stages_cases c h with ⟨hs, limit, n, ho⟩ | ⟨hs, hzero, ho⟩ | ⟨hs, hzero, k, -, ho⟩ |
    ⟨hs, v, hv, -, -, ho⟩ | ⟨hs, hzero, -, -, r, ho⟩
  · simp [ho, hs]
  · simp [ho, hs, hzero]
  · simp [ho, hzero]
  · have hzero : g.size ≠ 0 := Nat.ne_of_gt (Nat.zero_lt_of_lt hv.lt_size)
    simp [ho, hzero]
  · simp [ho, hzero]

theorem outcome_eq_unknownNode_iff (h : g.breakCycles none = .ok d) {text : String} :
    (analyze c g).outcome = .error (.unknownNode text) ↔
      ¬c.StopsShort d ∧ g.size ≠ 0 ∧ ∃ k, c.Unknown g k ∧ text = KeyText.quoted k := by
  rcases stages_cases c h with ⟨hs, limit, n, ho⟩ | ⟨hs, hzero, ho⟩ | ⟨hs, hzero, k, hk, ho⟩ |
    ⟨hs, v, hv, -, -, ho⟩ | ⟨hs, -, hknown, -, r, ho⟩
  · simp [ho, hs]
  · simp [ho, hzero]
  · rw [ho, Except.error.injEq, Error.unknownNode.injEq]
    constructor
    · rintro rfl
      exact ⟨hs, hzero, k, hk, rfl⟩
    · rintro ⟨-, -, k', hk', rfl⟩
      rw [hk.eq hk']
  · have hnone : ¬∃ k, c.Unknown g k ∧ text = KeyText.quoted k := fun ⟨_, hk, _⟩ =>
      hv.not_unknown hk
    simp [ho, hnone]
  · have hnone : ¬∃ k, c.Unknown g k ∧ text = KeyText.quoted k := fun ⟨k, hk, _⟩ => hknown k hk
    simp [ho, hnone]

theorem outcome_eq_unreachableNodes_iff (h : g.breakCycles none = .ok d) {vs : List Nat} :
    (analyze c g).outcome = .error (.unreachableNodes vs) ↔
      ¬c.StopsShort d ∧ c.allowUnreachable = false ∧ vs ≠ [] ∧
        ∃ v, c.RootedAt g v ∧ vs = (d.rootedTree v).unreachable := by
  rcases stages_cases c h with ⟨hs, limit, n, ho⟩ | ⟨hs, hzero, ho⟩ | ⟨hs, -, k, hk, ho⟩ |
    ⟨hs, v, hv, hallow, hne, ho⟩ | ⟨hs, -, -, hreach, r, ho⟩
  · simp [ho, hs]
  · have hnone : ∀ v, ¬c.RootedAt g v := fun v hv => by
      have := hv.lt_size
      omega
    simp [ho, hnone]
  · have hnone : ∀ v, ¬c.RootedAt g v := fun v hv => hv.not_unknown hk
    simp [ho, hnone]
  · rw [ho, Except.error.injEq, Error.unreachableNodes.injEq]
    constructor
    · rintro rfl
      exact ⟨hs, hallow, hne, v, hv, rfl⟩
    · rintro ⟨-, -, -, w, hw, rfl⟩
      rw [hv.eq hw]
  · rw [ho]
    simp only [reduceCtorEq, false_iff]
    rintro ⟨-, hallow, hne, v, hv, rfl⟩
    rcases hreach v hv with hallow' | hnil
    · simp [hallow] at hallow'
    · exact hne hnil

theorem exists_outcome_eq_ok_iff (h : g.breakCycles none = .ok d) :
    (∃ r, (analyze c g).outcome = .ok r) ↔
      ¬c.StopsShort d ∧ g.size ≠ 0 ∧ (∀ k, ¬c.Unknown g k) ∧
        ∀ v, c.RootedAt g v → c.allowUnreachable = true ∨ (d.rootedTree v).unreachable = [] := by
  rcases stages_cases c h with ⟨hs, limit, n, ho⟩ | ⟨hs, hzero, ho⟩ | ⟨hs, -, k, hk, ho⟩ |
    ⟨hs, v, hv, hallow, hne, ho⟩ | ⟨hs, hzero, hknown, hreach, r, ho⟩
  · simp [ho, hs]
  · simp [ho, hzero]
  · have hnot : ¬∀ k, ¬c.Unknown g k := fun hknown => hknown k hk
    simp [ho, hnot]
  · have hnot : ¬∀ v, c.RootedAt g v →
        c.allowUnreachable = true ∨ (d.rootedTree v).unreachable = [] := fun hreach => by
      simpa [hallow, hne] using hreach v hv
    simp [ho, hnot]
  · exact iff_of_true ⟨r, ho⟩ ⟨hs, hzero, hknown, hreach⟩

/-- No other error comes from the stages. -/
theorem outcome_ne_invalidGraph (c : Config κ) (g : KeyedGraph κ) (flaw : GraphFlaw) :
    (analyze c g).outcome ≠ .error (.invalidGraph flaw) := by
  obtain ⟨d, h⟩ := g.exists_breakCycles
  rcases stages_cases c h with ⟨hs, limit, n, ho⟩ | ⟨hs, -, ho⟩ | ⟨hs, -, k, -, ho⟩ |
    ⟨hs, v, -, -, -, ho⟩ | ⟨hs, -, -, -, r, ho⟩
  all_goals simp [ho]

end

/-! ## The analysis with its observers -/

section

variable {κ σ : Type} [DecidableEq κ] [KeyText κ] {c : Config κ} {g : KeyedGraph κ} {r : Report κ}
  {observers : List (Observer κ σ)} {s : σ} {e : Error}

/-- No observer is told if a stage fails. -/
theorem analyzeWith_of_error (h : (analyze c g).outcome = .error e) :
    analyzeWith c observers g s = (.error e, s) := by
  rw [analyzeWith, h]

theorem analyzeWith_of_accept (h : (analyze c g).outcome = .ok r) (haccept : Accept g r observers s) :
    analyzeWith c observers g s = (.ok r, told g r observers s) := by
  rw [analyzeWith, h]
  simp only [notifyAll_of_accept haccept]

theorem analyzeWith_of_refuse {before rest : List (Observer κ σ)} {o : Observer κ σ}
    (h : (analyze c g).outcome = .ok r) (hobservers : observers = before ++ o :: rest)
    (hrefuse : Refuse g r before o e s) :
    analyzeWith c observers g s =
      (.error (.observerFailed (o.name ++ ": " ++ e.message)), told g r (before ++ [o]) s) := by
  subst hobservers
  rw [analyzeWith, h]
  simp only [notifyAll_of_refuse hrefuse rest]

/-- An error that is not an observer's is the error of a stage. -/
theorem analyzeWith_eq_error_iff (hne : ∀ text, e ≠ .observerFailed text) :
    (analyzeWith c observers g s).1 = .error e ↔ (analyze c g).outcome = .error e := by
  cases hout : (analyze c g).outcome with
  | error e' => rw [analyzeWith_of_error hout]
  | ok r =>
    simp only [reduceCtorEq, iff_false]
    rcases accept_or_refuse (g := g) (r := r) observers s with
      haccept | ⟨before, o, rest, e', hobservers, hrefuse⟩
    · simp [analyzeWith_of_accept hout haccept]
    · rw [analyzeWith_of_refuse hout hobservers hrefuse, Except.error.injEq]
      exact (hne _).symm

/-- The report of an analysis is made of the results of its stages. -/
theorem report_of_analyze {d : Dag κ} (h : g.breakCycles none = .ok d)
    (hr : (analyze c g).outcome = .ok r) :
    ∃ t, d.dominatorTree c.entry c.allowUnreachable = .ok t ∧
      r = ⟨d, t, d.bubbles t, c.includeSuperRoot⟩ := by
  have hlimit : ¬c.StopsShort d := ((exists_outcome_eq_ok_iff h).1 ⟨r, hr⟩).1
  rw [outcome_analyze_eq h hlimit] at hr
  cases ht : d.dominatorTree c.entry c.allowUnreachable with
  | error e => simp [ht, Except.map] at hr
  | ok t =>
    rw [ht] at hr
    exact ⟨t, rfl, (Except.ok.inj hr).symm⟩

/-- The outcome of an analysis is decided in this order. The passes are used up if the limit is
smaller than the number of passes that the graph needs without one. The graph is empty if it has no
node. The root is unknown if a key is asked for that is not in the graph. Nodes are unreachable if a
root is asked for, this is not allowed, and the root does not reach some nodes of the acyclic graph;
these are listed in ascending order. Otherwise the stages succeed. No stage finds a flaw in a graph,
and without a key for the root no node is unreachable. Observers are told if the stages succeed, in
order, up to the first one that refuses, whose name and error are the error of the analysis. If none
refuses, the report is that of the stages. -/
theorem analyzeWith_outcome (c : Config κ) (observers : List (Observer κ σ)) (g : KeyedGraph κ)
    (s : σ) :
    ∃ d, g.breakCycles none = .ok d ∧
      let out := analyzeWith c observers g s
      ((∃ limit n, out.1 = .error (.cyclesRemain limit n)) ↔ c.StopsShort d) ∧
      (out.1 = .error .emptyGraph ↔ ¬c.StopsShort d ∧ g.size = 0) ∧
      (∀ text, out.1 = .error (.unknownNode text) ↔
        ¬c.StopsShort d ∧ g.size ≠ 0 ∧ ∃ k, c.Unknown g k ∧ text = KeyText.quoted k) ∧
      (∀ vs, out.1 = .error (.unreachableNodes vs) ↔
        ¬c.StopsShort d ∧ c.allowUnreachable = false ∧ vs ≠ [] ∧ vs.Pairwise (· < ·) ∧
          ∃ v, c.RootedAt g v ∧
            ∀ w, w ∈ vs ↔ w < g.size ∧ ¬d.graph.adjacency.Reaches v w) ∧
      ((∃ r, (analyze c g).outcome = .ok r) ↔
        ¬c.StopsShort d ∧ g.size ≠ 0 ∧ (∀ k, ¬c.Unknown g k) ∧
          (c.allowUnreachable = true ∨
            ∀ v, c.RootedAt g v → ∀ w < g.size, d.graph.adjacency.Reaches v w)) ∧
      (∀ flaw, out.1 ≠ .error (.invalidGraph flaw)) ∧
      (c.entry = none → ∀ vs, out.1 ≠ .error (.unreachableNodes vs)) ∧
      (∀ e, (analyze c g).outcome = .error e → out = (.error e, s)) ∧
      ∀ r, (analyze c g).outcome = .ok r →
        (∃ t, d.dominatorTree c.entry c.allowUnreachable = .ok t ∧
          r = ⟨d, t, d.bubbles t, c.includeSuperRoot⟩) ∧
        (Accept g r observers s ∧ out = (.ok r, told g r observers s) ∨
          ∃ before o rest e, observers = before ++ o :: rest ∧ Refuse g r before o e s ∧
            out = (.error (.observerFailed (o.name ++ ": " ++ e.message)),
              told g r (before ++ [o]) s)) := by
  obtain ⟨d, h⟩ := g.exists_breakCycles
  have hsize : d.graph.size = g.size := KeyedGraph.size_of_breakCycles h
  have hunreachable : ∀ {v vs}, c.RootedAt g v → (vs = (d.rootedTree v).unreachable ↔
      vs.Pairwise (· < ·) ∧ ∀ w, w ∈ vs ↔ w < g.size ∧ ¬d.graph.adjacency.Reaches v w) := by
    intro v vs hv
    rw [d.unreachable_rootedTree_eq_iff (hsize ▸ hv.lt_size), hsize]
  refine ⟨d, h, ?_, ?_, fun text => ?_, fun vs => ?_, ?_, fun flaw => ?_, fun hentry vs => ?_,
    fun e he => analyzeWith_of_error he, fun r hr => ⟨report_of_analyze h hr, ?_⟩⟩
  · rw [← outcome_eq_cyclesRemain_iff h]
    exact exists_congr fun limit => exists_congr fun n => analyzeWith_eq_error_iff (by simp)
  · rw [analyzeWith_eq_error_iff (by simp), outcome_eq_emptyGraph_iff h]
  · rw [analyzeWith_eq_error_iff (by simp), outcome_eq_unknownNode_iff h]
  · rw [analyzeWith_eq_error_iff (by simp), outcome_eq_unreachableNodes_iff h]
    refine and_congr_right fun _ => and_congr_right fun _ => and_congr_right fun _ => ?_
    constructor
    · rintro ⟨v, hv, hvs⟩
      obtain ⟨hsorted, hmem⟩ := (hunreachable hv).1 hvs
      exact ⟨hsorted, v, hv, hmem⟩
    · rintro ⟨hsorted, v, hv, hmem⟩
      exact ⟨v, hv, (hunreachable hv).2 ⟨hsorted, hmem⟩⟩
  · rw [exists_outcome_eq_ok_iff h]
    refine and_congr_right fun _ => and_congr_right fun _ => and_congr_right fun _ => ?_
    have hnil : ∀ {v}, c.RootedAt g v → ((d.rootedTree v).unreachable = [] ↔
        ∀ w < g.size, d.graph.adjacency.Reaches v w) := by
      intro v hv
      rw [eq_comm, hunreachable hv]
      simp
    constructor
    · intro hreach
      by_cases hallow : c.allowUnreachable = true
      · exact .inl hallow
      · exact .inr fun v hv => (hnil hv).1 ((hreach v hv).resolve_left hallow)
    · intro hreach v hv
      exact hreach.imp_right fun hall => (hnil hv).2 (hall v hv)
  · rw [Ne, analyzeWith_eq_error_iff (by simp)]
    exact outcome_ne_invalidGraph c g flaw
  · rw [Ne, analyzeWith_eq_error_iff (by simp), outcome_eq_unreachableNodes_iff h]
    rintro ⟨-, -, -, v, ⟨k, hk, -⟩, -⟩
    simp [hentry] at hk
  · rcases accept_or_refuse (g := g) (r := r) observers s with
      haccept | ⟨before, o, rest, e, hobservers, hrefuse⟩
    · exact .inl ⟨haccept, analyzeWith_of_accept hr haccept⟩
    · exact .inr ⟨before, o, rest, e, hobservers, hrefuse,
        analyzeWith_of_refuse hr hobservers hrefuse⟩

end

end FlowBubbles
