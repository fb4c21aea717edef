import FlowBubbles.Proofs.KeyedGraph.Store

/-!
# The history of a graph

A graph starts without nodes or from lists, and is then changed by any sequence of operations: nodes
and edges are added, and cycles are broken, which may leave parallel edges behind. Whatever its
history, a graph has the keys that were named to it, in the order in which they were named first
(`History.keys_graph`), and its two stores are in step (`History.agree`).
-/

namespace FlowBubbles

/-- What a graph starts from. -/
inductive Origin (κ : Type)
  | empty
  | lists (keys : List κ) (edges : List (κ × κ))

/-- A change of a graph. Breaking cycles leaves the graph as it is if the limit is used up. -/
inductive Operation (κ : Type)
  | addNode (key : κ)
  | addEdge (source target : κ)
  | breakCycles (limit : Option Nat)

/-- What happened to a graph since it started. -/
structure History (κ : Type) where
  origin : Origin κ
  operations : List (Operation κ)

section

variable {κ : Type}

/-- The keys that a graph starts from. -/
def Origin.keys : Origin κ → List κ
  | .empty => []
  | .lists keys _ => keys

/-- The keys that an operation names. -/
def Operation.keys : Operation κ → List κ
  | .addNode key => [key]
  | .addEdge source target => [source, target]
  | .breakCycles _ => []

/-- The keys that were named to a graph. -/
def History.keys (h : History κ) : List κ := h.origin.keys ++ h.operations.flatMap Operation.keys

/-- The history that goes on with further operations. -/
def History.andThen (h : History κ) (more : List (Operation κ)) : History κ :=
  ⟨h.origin, h.operations ++ more⟩

/-- Whether an edge that the graph starts from has an end outside the keys. -/
def Origin.Foreign : Origin κ → Prop
  | .empty => False
  | .lists keys edges => ∃ p ∈ edges, ¬(p.1 ∈ keys ∧ p.2 ∈ keys)

variable [DecidableEq κ] [KeyText κ]

/-- The graph at the start. -/
def Origin.graph : Origin κ → Except Error (KeyedGraph κ)
  | .empty => .ok .empty
  | .lists keys edges => KeyedGraph.ofLists keys edges

/-- The two stores at the start. -/
def Origin.store : Origin κ → Except Error (Store κ)
  | .empty => .ok .empty
  | .lists keys edges => Store.ofLists keys edges

omit [KeyText κ] in
/-- The graph after an operation. -/
def Operation.apply (g : KeyedGraph κ) : Operation κ → KeyedGraph κ
  | .addNode key => g.addNode key
  | .addEdge source target => (g.addEdge source target).1
  | .breakCycles limit =>
    match g.breakCycles limit with
    | .ok d => d.graph
    | .error _ => g

/-- The two stores after an operation. -/
def Operation.applyStore (x : Store κ) : Operation κ → Except Error (Store κ)
  | .addNode key => .ok (x.addNode key)
  | .addEdge source target => (x.addEdge source target).map Prod.fst
  | .breakCycles limit => (x.breakCycles limit).map (·.getD x)

/-- The graph that a history leads to. -/
def History.graph (h : History κ) : Except Error (KeyedGraph κ) :=
  h.origin.graph.map (h.operations.foldl Operation.apply)

/-- The two stores that a history leads to. -/
def History.store (h : History κ) : Except Error (Store κ) :=
  h.origin.store >>= h.operations.foldlM Operation.applyStore

end

/-! ## One operation -/

namespace Operation

variable {κ : Type} [DecidableEq κ] {x : Store κ} {g : KeyedGraph κ}

/-- An operation appends the keys that it names and that are new. -/
theorem keys_apply (g : KeyedGraph κ) (o : Operation κ) :
    (o.apply g).keys = (g.keys ++ o.keys).eraseDups := by
  cases o with
  | addNode k => exact g.keys_addNode k
  | addEdge s t => exact g.keys_addEdge s t
  | breakCycles limit =>
    rw [keys, List.append_nil, eraseDups_of_nodup g.nodup_keys, apply]
    split
    · rename_i d hd
      exact congrArg Array.toList (KeyedGraph.labels_of_breakCycles hd)
    · rfl

/-- No operation fails, and the two stores stay in step. -/
theorem exists_applyStore (h : x.InStep g) (o : Operation κ) :
    ∃ x', o.applyStore x = .ok x' ∧ x'.InStep (o.apply g) := by
  cases o with
  | addNode k => exact ⟨_, rfl, h.addNode k⟩
  | addEdge s t =>
    obtain ⟨x', hx', hstep⟩ := h.addEdge s t
    exact ⟨x', by rw [applyStore, hx']; rfl, hstep⟩
  | breakCycles limit =>
    rcases h.breakCycles limit with ⟨d, x', hd, hx', hstep⟩ | ⟨stuck, hstuck, hx'⟩
    · exact ⟨x', by rw [applyStore, hx']; rfl, by rwa [apply, hd]⟩
    · exact ⟨x, by rw [applyStore, hx']; rfl, by rwa [apply, hstuck]⟩

end Operation

/-! ## A whole history -/

namespace History

variable {κ : Type} [DecidableEq κ] {g : KeyedGraph κ} {x : Store κ}

theorem keys_foldl (ops : List (Operation κ)) (g : KeyedGraph κ) :
    (ops.foldl Operation.apply g).keys = (g.keys ++ ops.flatMap Operation.keys).eraseDups := by
  induction ops generalizing g with
  | nil => rw [List.flatMap_nil, List.append_nil, eraseDups_of_nodup g.nodup_keys]; rfl
  | cons o ops ih =>
    rw [List.foldl_cons, ih, Operation.keys_apply, eraseDups_eraseDups_append, List.append_assoc,
      List.flatMap_cons]

theorem exists_foldlM (h : x.InStep g) (ops : List (Operation κ)) :
    ∃ x', ops.foldlM Operation.applyStore x = .ok x' ∧
      x'.InStep (ops.foldl Operation.apply g) := by
  induction ops generalizing x g with
  | nil => exact ⟨x, rfl, h⟩
  | cons o ops ih =>
    obtain ⟨x₁, hx₁, hstep₁⟩ := Operation.exists_applyStore h o
    obtain ⟨x', hx', hstep⟩ := ih hstep₁
    exact ⟨x', by rw [List.foldlM_cons, hx₁]; exact hx', hstep⟩

variable [KeyText κ]

/-- The two stores are in step with the graph, or neither came about. -/
theorem agree (h : History κ) : Store.Agree h.store h.graph := by
  have hstart : Store.Agree h.origin.store h.origin.graph := by
    cases h.origin with
    | empty => exact Store.inStep_empty
    | lists ks es => exact Store.agree_ofLists ks es
  rw [store, graph]
  cases hg : h.origin.graph with
  | error e =>
    rw [hg] at hstart
    rw [hstart.eq_error]
    rfl
  | ok g =>
    rw [hg] at hstart
    obtain ⟨x, hx, hstep⟩ := hstart.exists_eq_ok
    obtain ⟨x', hx', hstep'⟩ := exists_foldlM hstep h.operations
    have hrun : (Except.ok x >>= h.operations.foldlM Operation.applyStore) = .ok x' := hx'
    rw [hx, hrun]
    exact hstep'

/-- A history leads to no graph if and only if it starts from lists with a foreign edge. -/
theorem exists_graph_eq_error_iff (h : History κ) :
    (∃ e, h.graph = .error e) ↔ h.origin.Foreign := by
  have hmap : (∃ e, h.graph = .error e) ↔ ∃ e, h.origin.graph = .error e := by
    rw [graph]
    cases h.origin.graph <;> simp [Except.map]
  rw [hmap]
  cases h.origin with
  | empty => simp [Origin.graph, Origin.Foreign]
  | lists ks es => exact KeyedGraph.exists_ofLists_eq_error_iff

theorem keys_origin {o : Origin κ} (h : o.graph = .ok g) : g.keys = o.keys.eraseDups := by
  cases o with
  | empty =>
    obtain rfl := Except.ok.inj h
    rfl
  | lists ks es =>
    have hforeign : ¬∃ p ∈ es, ¬(p.1 ∈ ks ∧ p.2 ∈ ks) := fun hforeign => by
      obtain ⟨e, he⟩ := KeyedGraph.exists_ofLists_eq_error_iff.2 hforeign
      cases h.symm.trans he
    push Not at hforeign
    obtain ⟨g', hg', hkeys, -⟩ := KeyedGraph.ofLists_of_mem hforeign
    obtain rfl : g = g' := Except.ok.inj (h.symm.trans hg')
    exact hkeys

/-- The keys of a graph are those that were named to it, in the order of their first occurrence. -/
theorem keys_graph {h : History κ} (hg : h.graph = .ok g) : g.keys = h.keys.eraseDups := by
  rw [graph] at hg
  cases hstart : h.origin.graph with
  | error e =>
    rw [hstart] at hg
    cases hg
  | ok g₀ =>
    rw [hstart] at hg
    obtain rfl := Except.ok.inj hg
    rw [keys_foldl, keys_origin hstart, eraseDups_eraseDups_append, keys]

theorem graph_andThen {h : History κ} (hg : h.graph = .ok g) (more : List (Operation κ)) :
    (h.andThen more).graph = .ok (more.foldl Operation.apply g) := by
  rw [graph] at hg ⊢
  cases hstart : h.origin.graph with
  | error e =>
    rw [hstart] at hg
    cases hg
  | ok g₀ =>
    rw [hstart] at hg
    obtain rfl := Except.ok.inj hg
    simp only [andThen, hstart, Except.map, List.foldl_append]

omit [KeyText κ] in
theorem keys_prefix_foldl (ops : List (Operation κ)) (g : KeyedGraph κ) :
    g.keys <+: (ops.foldl Operation.apply g).keys := by
  rw [keys_foldl, List.eraseDups_append, eraseDups_of_nodup g.nodup_keys]
  exact List.prefix_append _ _

/-- Whatever happened to a graph, its two stores are in step: keys and nodes name each other, nodes
are numbered in the order in which their keys were named first, and keep their numbers whatever else
happens. An edge is added without an error, and only if the pair was not joined before; parallel
edges that are there already stay. Lists are refused if an edge names a key outside them, with the
first such edge; otherwise the first copies of keys and edges are left. A graph without parallel
edges is built again from its own keys and edges. -/
theorem graph_correct (h : History κ) :
    ((∃ e, h.graph = .error e) ↔ h.origin.Foreign) ∧
    (∀ e, h.graph = .error e → h.store = .error e) ∧
    (∀ g, h.graph = .ok g →
      ∃ x, h.store = .ok x ∧ x.graph = g.toDigraph ∧
        (∀ k, x.table k = g.node? k) ∧
        (∀ k i, x.table k = some i ↔ x.graph.label? i = some k) ∧
        (∀ k i, g.node? k = some i ↔ g.key? i = some k) ∧
        (∀ i, g.key? i = h.keys.eraseDups[i]?) ∧
        g.size = h.keys.eraseDups.length ∧
        (∀ more, ∃ g', (h.andThen more).graph = .ok g' ∧
          ∀ k i, g.node? k = some i → g'.node? k = some i) ∧
        (∀ s t,
          (∃ x', x.addEdge s t = .ok (x', (g.addEdge s t).2) ∧ x'.InStep (g.addEdge s t).1) ∧
          ((g.addEdge s t).2 = true ↔ (s, t) ∉ g.edgeKeys) ∧
          (g.addEdge s t).1.edgeKeys =
            (if (s, t) ∈ g.edgeKeys then g.edgeKeys else g.edgeKeys ++ [(s, t)]) ∧
          ∀ p, (g.addEdge s t).1.edgeKeys.count p ≤ max 1 (g.edgeKeys.count p)) ∧
        (g.edges.toList.Nodup → KeyedGraph.ofLists g.keys g.edgeKeys = .ok g)) ∧
    ∀ (ks : List κ) (es : List (κ × κ)),
      ((∃ e, KeyedGraph.ofLists ks es = .error e) ↔ ∃ p ∈ es, ¬(p.1 ∈ ks ∧ p.2 ∈ ks)) ∧
      (∀ before s t after, es = before ++ (s, t) :: after →
        (∀ p ∈ before, p.1 ∈ ks ∧ p.2 ∈ ks) → ¬(s ∈ ks ∧ t ∈ ks) →
        KeyedGraph.ofLists ks es =
          .error (.invalidGraph (.foreignEdge (KeyText.quoted s) (KeyText.quoted t)))) ∧
      ((∀ p ∈ es, p.1 ∈ ks ∧ p.2 ∈ ks) →
        ∃ g, KeyedGraph.ofLists ks es = .ok g ∧ g.keys = ks.eraseDups ∧
          g.edgeKeys = es.eraseDups) := by
  have hagree := h.agree
  refine ⟨h.exists_graph_eq_error_iff, fun e he => ?_, fun g hg => ?_, fun ks es =>
    ⟨KeyedGraph.exists_ofLists_eq_error_iff, ?_, KeyedGraph.ofLists_of_mem⟩⟩
  · rw [he] at hagree
    exact hagree.eq_error
  · rw [hg] at hagree
    obtain ⟨x, hx, hstep⟩ := hagree.exists_eq_ok
    have hkeys := keys_graph hg
    refine ⟨x, hx, hstep.graph, hstep.table, fun k i => hstep.table_eq_some_iff,
      fun k i => KeyedGraph.node?_eq_some_iff, fun i => ?_, ?_, fun more => ?_, fun s t => ?_,
      KeyedGraph.ofLists_keys_edgeKeys⟩
    · rw [KeyedGraph.key?_eq_getElem?, hkeys]
    · rw [← KeyedGraph.length_keys, hkeys]
    · refine ⟨_, graph_andThen hg more, fun k i hk => ?_⟩
      rw [KeyedGraph.node?_eq_some_iff] at hk ⊢
      exact KeyedGraph.key?_of_grown (keys_prefix_foldl more g) hk
    · exact ⟨hstep.addEdge s t, g.addEdge_snd s t, g.edgeKeys_addEdge s t,
        g.count_edgeKeys_addEdge_le s t⟩
  · rintro before s t after rfl hbefore hst
    exact KeyedGraph.ofLists_of_not_mem hbefore hst

end History

end FlowBubbles
