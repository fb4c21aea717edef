import FlowBubbles.KeyedGraph
import Mathlib.Data.List.Nodup

/-!
# Growing a graph by keys

Each operation is described by what it makes of the list of keys and of the list of edges as pairs
of keys: it appends, and leaves out what is there already (`List.eraseDups`). A key that has a node
keeps it, since the keys only grow at the end.
-/

namespace FlowBubbles

/-! ## Lists without their later copies -/

section

variable {α : Type} [BEq α] [LawfulBEq α] {l : List α} {a : α}

theorem nodup_eraseDups : ∀ l : List α, l.eraseDups.Nodup
  | [] => by simp
  | a :: l => by
    rw [List.eraseDups_cons, List.nodup_cons]
    exact ⟨by simp, nodup_eraseDups _⟩
termination_by l => l.length
decreasing_by exact Nat.lt_succ_of_le (List.length_filter_le _ _)

theorem eraseDups_of_nodup (h : l.Nodup) : l.eraseDups = l := by
  induction l with
  | nil => rfl
  | cons a l ih =>
    rw [List.nodup_cons] at h
    have hfilter : (l.filter fun b => !b == a) = l := by
      refine List.filter_eq_self.2 fun b hb => ?_
      simpa using fun heq : b = a => h.1 (heq ▸ hb)
    rw [List.eraseDups_cons, hfilter, ih h.2]

theorem eraseDups_append_nil (h : l.Nodup) : (l ++ []).eraseDups = l := by
  rw [List.append_nil, eraseDups_of_nodup h]

/-- Later copies may be left out in several steps. -/
theorem eraseDups_eraseDups_append (l m : List α) :
    (l.eraseDups ++ m).eraseDups = (l ++ m).eraseDups := by
  have hremove : m.removeAll l.eraseDups = m.removeAll l := by
    simp [List.removeAll, List.mem_eraseDups]
  rw [List.eraseDups_append, List.eraseDups_append, hremove,
    eraseDups_of_nodup (nodup_eraseDups l)]

theorem eraseDups_append_of_subset {m : List α} (h : m ⊆ l) :
    (l ++ m).eraseDups = l.eraseDups := by
  have hremove : m.removeAll l = [] := by
    simpa [List.removeAll, List.filter_eq_nil_iff] using fun a ha => h ha
  rw [List.eraseDups_append, hremove, List.eraseDups_nil, List.append_nil]

theorem eraseDups_append_of_mem (ha : a ∈ l) : (l ++ [a]).eraseDups = l.eraseDups :=
  eraseDups_append_of_subset (by simpa using ha)

theorem eraseDups_append_of_not_mem (ha : a ∉ l) :
    (l ++ [a]).eraseDups = l.eraseDups ++ [a] := by
  rw [List.eraseDups_append]
  simp [List.removeAll, List.eraseDups_cons, ha]

/-- An element that is put at the end of a list, unless it is there already. -/
theorem eraseDups_append_singleton [DecidableEq α] (h : l.Nodup) (a : α) :
    (l ++ [a]).eraseDups = if a ∈ l then l else l ++ [a] := by
  split
  · rename_i ha
    rw [eraseDups_append_of_mem ha, eraseDups_of_nodup h]
  · rename_i ha
    rw [eraseDups_append_of_not_mem ha, eraseDups_of_nodup h]

end

namespace KeyedGraph

/-! ## Keys that stay where they are -/

section

variable {κ : Type} {g g' : KeyedGraph κ} {k s t : κ} {v : Nat} {e : Edge}

theorem key?_eq_getElem? (g : KeyedGraph κ) (v : Nat) : g.key? v = g.keys[v]? :=
  Array.getElem?_toList.symm

theorem length_keys (g : KeyedGraph κ) : g.keys.length = g.size := Array.length_toList

theorem nodup_keys (g : KeyedGraph κ) : g.keys.Nodup := g.nodup

theorem exists_key? (hv : v < g.size) : ∃ k, g.key? v = some k := by
  rw [← length_keys] at hv
  exact ⟨g.keys[v], (g.key?_eq_getElem? v).trans (List.getElem?_eq_getElem hv)⟩

theorem keyPair?_eq_some_iff :
    g.keyPair? e = some (s, t) ↔ g.key? e.source = some s ∧ g.key? e.target = some t := by
  simp [keyPair?, Option.bind_eq_some_iff]

/-- If the keys only grew at the end, nodes have the keys they had. -/
theorem key?_of_grown (h : g.keys <+: g'.keys) (hk : g.key? v = some k) : g'.key? v = some k := by
  rw [key?_eq_getElem?] at hk ⊢
  obtain ⟨more, hmore⟩ := h
  rw [← hmore]
  exact List.getElem?_append_left (List.getElem?_eq_some_iff.1 hk).1 ▸ hk

theorem keyPair?_of_grown (h : g.keys <+: g'.keys)
    (he : e.source < g.size ∧ e.target < g.size) : g'.keyPair? e = g.keyPair? e := by
  obtain ⟨s, hs⟩ := exists_key? he.1
  obtain ⟨t, ht⟩ := exists_key? he.2
  rw [keyPair?_eq_some_iff.2 ⟨hs, ht⟩,
    keyPair?_eq_some_iff.2 ⟨key?_of_grown h hs, key?_of_grown h ht⟩]

/-- The edges of a graph as pairs of keys are the same after the keys grew at the end. -/
theorem keyPairsOf_of_grown (h : g.keys <+: g'.keys) :
    g'.keyPairsOf g.edges.toList = g.edgeKeys :=
  List.filterMap_congr fun e he =>
    keyPair?_of_grown h (g.edges_lt e (Array.mem_toList_iff.1 he))

theorem edgeKeys_of_grown (h : g.keys <+: g'.keys) (hedges : g'.edges = g.edges) :
    g'.edgeKeys = g.edgeKeys := by
  rw [edgeKeys, hedges, keyPairsOf_of_grown h]

/-! ## Joining two nodes -/

theorem keys_join (he : e.source < g.size ∧ e.target < g.size) : (g.join e he).1.keys = g.keys := by
  unfold join
  split <;> rfl

end

variable {κ : Type} [DecidableEq κ] {g g' : KeyedGraph κ} {k s t : κ} {v : Nat} {e : Edge}

theorem node?_eq_none_iff : g.node? k = none ↔ k ∉ g.keys := by
  rw [node?, Array.findIdx?_eq_none_iff, keys, Array.mem_toList_iff]
  constructor
  · intro h hk
    simpa using h k hk
  · intro h x hx
    exact beq_false_of_ne fun heq => h (heq ▸ hx)

theorem exists_node? (hk : k ∈ g.keys) : ∃ v, g.node? k = some v :=
  Option.ne_none_iff_exists'.1 fun hnone => node?_eq_none_iff.1 hnone hk

theorem mem_keys_of_node? (h : g.node? k = some v) : k ∈ g.keys := by
  rw [node?_eq_some_iff, key?_eq_getElem?] at h
  exact List.mem_of_getElem? h

/-- An edge is known by the keys of its ends. -/
theorem eq_of_keyPair? {e' : Edge} {p : κ × κ} (h : g.keyPair? e = some p)
    (h' : g.keyPair? e' = some p) : e = e' := by
  obtain ⟨hs, ht⟩ := keyPair?_eq_some_iff.1 h
  obtain ⟨hs', ht'⟩ := keyPair?_eq_some_iff.1 h'
  rw [← node?_eq_some_iff] at hs ht hs' ht'
  have hsource : e.source = e'.source := Option.some.inj (hs.symm.trans hs')
  have htarget : e.target = e'.target := Option.some.inj (ht.symm.trans ht')
  cases e
  cases e'
  congr

theorem nodup_edgeKeys (h : g.edges.toList.Nodup) : g.edgeKeys.Nodup :=
  h.filterMap fun _ _ _ he he' => eq_of_keyPair? he he'

/-- The edges are found again from the keys of their ends. -/
theorem toList_edges (g : KeyedGraph κ) : g.edges.toList = g.edgeKeys.filterMap fun (s, t) => do
    return ⟨← g.node? s, ← g.node? t⟩ := by
  rw [edgeKeys, keyPairsOf, List.filterMap_filterMap]
  refine (List.filterMap_some.symm.trans (List.filterMap_congr fun e he => ?_))
  obtain ⟨hsource, htarget⟩ := g.edges_lt e (Array.mem_toList_iff.1 he)
  obtain ⟨s, hs⟩ := exists_key? hsource
  obtain ⟨t, ht⟩ := exists_key? htarget
  rw [keyPair?_eq_some_iff.2 ⟨hs, ht⟩]
  simp [node?_eq_some_iff.2 hs, node?_eq_some_iff.2 ht]

/-- A graph is known by its keys and by its edges as pairs of keys. -/
theorem eq_of_keys_of_edgeKeys (hkeys : g.keys = g'.keys) (hedges : g.edgeKeys = g'.edgeKeys) :
    g = g' := by
  have hlabels : g.labels = g'.labels := Array.toList_inj.1 hkeys
  have hnode : g.node? = g'.node? := funext fun k => by rw [node?, node?, hlabels]
  have hlist : g.edges = g'.edges := by
    rw [← Array.toList_inj, toList_edges, toList_edges, hnode, hedges]
  obtain ⟨⟨_, _, _⟩, _⟩ := g
  obtain ⟨⟨_, _, _⟩, _⟩ := g'
  congr

/-- A pair of nodes is joined if the pair of their keys is. -/
theorem mem_edgeKeys_iff (hs : g.key? e.source = some s) (ht : g.key? e.target = some t) :
    (s, t) ∈ g.edgeKeys ↔ e ∈ g.edges := by
  rw [edgeKeys, keyPairsOf, List.mem_filterMap]
  constructor
  · rintro ⟨e', he', hpair⟩
    obtain rfl := eq_of_keyPair? hpair (keyPair?_eq_some_iff.2 ⟨hs, ht⟩)
    exact Array.mem_toList_iff.1 he'
  · exact fun he => ⟨e, Array.mem_toList_iff.2 he, keyPair?_eq_some_iff.2 ⟨hs, ht⟩⟩

theorem hasEdge_iff (hs : g.key? e.source = some s) (ht : g.key? e.target = some t) :
    g.hasEdge e.source e.target = true ↔ (s, t) ∈ g.edgeKeys := by
  rw [mem_edgeKeys_iff hs ht, Digraph.hasEdge, Array.contains_iff_mem]

theorem edgeKeys_join (he : e.source < g.size ∧ e.target < g.size)
    (hs : g.key? e.source = some s) (ht : g.key? e.target = some t) :
    (g.join e he).1.edgeKeys =
      if (s, t) ∈ g.edgeKeys then g.edgeKeys else g.edgeKeys ++ [(s, t)] := by
  have hkeys := keys_join he
  unfold join
  simp only [hasEdge_iff hs ht]
  split
  · rfl
  · have hpair : g.keyPair? e = some (s, t) := keyPair?_eq_some_iff.2 ⟨hs, ht⟩
    calc g.keyPairsOf (g.edges.push e).toList
        = g.edgeKeys ++ g.keyPairsOf [e] := by
          rw [Array.toList_push, keyPairsOf, List.filterMap_append]; rfl
      _ = g.edgeKeys ++ [(s, t)] := by rw [keyPairsOf, List.filterMap_cons_some hpair]; rfl

theorem join_snd (he : e.source < g.size ∧ e.target < g.size)
    (hs : g.key? e.source = some s) (ht : g.key? e.target = some t) :
    (g.join e he).2 = true ↔ (s, t) ∉ g.edgeKeys := by
  rw [← hasEdge_iff hs ht]
  unfold join
  split <;> simp_all

/-! ## Naming a node -/

theorem key?_node_named (g : KeyedGraph κ) (k : κ) :
    (g.named k).graph.key? (g.named k).node = some k := by
  unfold named
  split
  · rename_i v hv
    exact node?_eq_some_iff.1 hv
  · exact Array.getElem?_push_size

/-- A key is put behind the others unless it is there. -/
theorem keys_addNode (g : KeyedGraph κ) (k : κ) : (g.addNode k).keys = (g.keys ++ [k]).eraseDups := by
  rw [eraseDups_append_singleton g.nodup_keys, addNode]
  unfold named
  split
  · rename_i v hv
    rw [if_pos (mem_keys_of_node? hv)]
  · rename_i hnone
    rw [if_neg (node?_eq_none_iff.1 hnone)]
    exact Array.toList_push

theorem named_of_none (h : g.node? k = none) : (g.named k).node = g.size ∧
    (g.addNode k).toDigraph = g.toDigraph.addNode k := by
  rw [addNode]
  unfold named
  split
  · rename_i v hv
    cases h.symm.trans hv
  · exact ⟨rfl, rfl⟩

theorem named_of_some (h : g.node? k = some v) : (g.named k).node = v ∧ g.addNode k = g := by
  rw [addNode]
  unfold named
  split
  · rename_i w hw
    exact ⟨Option.some.inj (hw.symm.trans h), rfl⟩
  · rename_i hnone
    cases h.symm.trans hnone

theorem edges_addNode (g : KeyedGraph κ) (k : κ) : (g.addNode k).edges = g.edges := by
  rw [addNode]
  unfold named
  split <;> rfl

theorem keys_prefix_addNode (g : KeyedGraph κ) (k : κ) : g.keys <+: (g.addNode k).keys := by
  rw [keys_addNode, eraseDups_append_singleton g.nodup_keys]
  split
  · exact List.prefix_refl _
  · exact List.prefix_append _ _

/-- A key that is put into the graph gets the first free index. The other keys keep their nodes. -/
theorem node?_addNode (h : g.node? k = none) (k' : κ) :
    (g.addNode k).node? k' = if k' = k then some g.size else g.node? k' := by
  split
  · rename_i heq
    rw [heq, node?_eq_some_iff, ← (named_of_none h).1]
    exact g.key?_node_named k
  · rename_i hne
    cases hk' : g.node? k' with
    | some v =>
      exact node?_eq_some_iff.2
        (key?_of_grown (g.keys_prefix_addNode k) (node?_eq_some_iff.1 hk'))
    | none =>
      rw [node?_eq_none_iff] at hk' ⊢
      rw [keys_addNode, List.mem_eraseDups]
      simpa using ⟨hk', hne⟩

theorem edgeKeys_addNode (g : KeyedGraph κ) (k : κ) : (g.addNode k).edgeKeys = g.edgeKeys :=
  edgeKeys_of_grown (g.keys_prefix_addNode k) (g.edges_addNode k)

/-! ## Joining two keys -/

theorem keys_addEdge (g : KeyedGraph κ) (s t : κ) :
    (g.addEdge s t).1.keys = (g.keys ++ [s, t]).eraseDups := by
  calc (g.addEdge s t).1.keys = ((g.addNode s).addNode t).keys := keys_join _
    _ = ((g.keys ++ [s]).eraseDups ++ [t]).eraseDups := by rw [keys_addNode, keys_addNode]
    _ = (g.keys ++ [s, t]).eraseDups := by rw [eraseDups_eraseDups_append, List.append_assoc]; rfl

/-- The ends of the edge that `addEdge` adds have the given keys. -/
theorem key?_ends_addEdge (g : KeyedGraph κ) (s t : κ) :
    ((g.named s).graph.named t).graph.key? (g.named s).node = some s ∧
      ((g.named s).graph.named t).graph.key? ((g.named s).graph.named t).node = some t :=
  ⟨key?_of_grown ((g.named s).graph.keys_prefix_addNode t) (g.key?_node_named s),
    key?_node_named _ t⟩

theorem edgeKeys_addEdge (g : KeyedGraph κ) (s t : κ) :
    (g.addEdge s t).1.edgeKeys =
      if (s, t) ∈ g.edgeKeys then g.edgeKeys else g.edgeKeys ++ [(s, t)] := by
  obtain ⟨hs, ht⟩ := g.key?_ends_addEdge s t
  have hold : ((g.named s).graph.named t).graph.edgeKeys = g.edgeKeys :=
    (edgeKeys_addNode _ t).trans (g.edgeKeys_addNode s)
  rw [addEdge, edgeKeys_join _ hs ht, hold]

/-- No pair gets a second copy. -/
theorem count_edgeKeys_addEdge_le (g : KeyedGraph κ) (s t : κ) (p : κ × κ) :
    (g.addEdge s t).1.edgeKeys.count p ≤ max 1 (g.edgeKeys.count p) := by
  rw [edgeKeys_addEdge]
  split
  · exact Nat.le_max_right 1 _
  · rename_i hnew
    rw [List.count_append]
    by_cases hp : p = (s, t)
    · rw [hp, List.count_eq_zero_of_not_mem hnew, List.count_singleton_self]
      exact Nat.le_max_left 1 0
    · rw [List.count_eq_zero_of_not_mem (l := [(s, t)]) (by simpa using hp)]
      exact Nat.le_max_right 1 _

theorem addEdge_snd (g : KeyedGraph κ) (s t : κ) :
    (g.addEdge s t).2 = true ↔ (s, t) ∉ g.edgeKeys := by
  obtain ⟨hs, ht⟩ := g.key?_ends_addEdge s t
  have hold : ((g.named s).graph.named t).graph.edgeKeys = g.edgeKeys :=
    (edgeKeys_addNode _ t).trans (g.edgeKeys_addNode s)
  rw [addEdge, join_snd _ hs ht, hold]

/-! ## Graphs from lists -/

theorem keys_foldl_addNode (ks : List κ) (g : KeyedGraph κ) :
    (ks.foldl addNode g).keys = (g.keys ++ ks).eraseDups := by
  induction ks generalizing g with
  | nil => exact (eraseDups_append_nil g.nodup_keys).symm
  | cons k ks ih =>
    rw [List.foldl_cons, ih, keys_addNode, eraseDups_eraseDups_append, List.append_assoc]
    rfl

theorem mem_keys_foldl_addNode {ks : List κ} : k ∈ (ks.foldl addNode empty).keys ↔ k ∈ ks := by
  rw [keys_foldl_addNode, List.mem_eraseDups]
  exact Iff.rfl

theorem edges_foldl_addNode (ks : List κ) (g : KeyedGraph κ) :
    (ks.foldl addNode g).edges = g.edges := by
  induction ks generalizing g with
  | nil => rfl
  | cons k ks ih => rw [List.foldl_cons, ih, edges_addNode]

variable [KeyText κ] {es : List (κ × κ)}

theorem joinAll_cons {u v : Nat} (hs : g.node? s = some u) (ht : g.node? t = some v)
    (es : List (κ × κ)) :
    g.joinAll ((s, t) :: es) =
      (g.join ⟨u, v⟩ ⟨lt_size_of_node?_eq_some hs, lt_size_of_node?_eq_some ht⟩).1.joinAll es := by
  rw [joinAll]
  split
  · rename_i u' v' hu hv
    obtain rfl := Option.some.inj (hs.symm.trans hu)
    obtain rfl := Option.some.inj (ht.symm.trans hv)
    rfl
  · rename_i hnone
    exact absurd ht (hnone u v hs)

/-- A pair of keys of the graph is joined, and the rest of the list is gone on with. -/
theorem joinAll_cons_of_mem (hs : s ∈ g.keys) (ht : t ∈ g.keys) (es : List (κ × κ)) :
    ∃ g' : KeyedGraph κ, g.joinAll ((s, t) :: es) = g'.joinAll es ∧ g'.keys = g.keys ∧
      g'.edgeKeys = if (s, t) ∈ g.edgeKeys then g.edgeKeys else g.edgeKeys ++ [(s, t)] := by
  obtain ⟨u, hu⟩ := exists_node? hs
  obtain ⟨v, hv⟩ := exists_node? ht
  exact ⟨_, joinAll_cons hu hv es, keys_join _,
    edgeKeys_join _ (node?_eq_some_iff.1 hu) (node?_eq_some_iff.1 hv)⟩

/-- A pair with a key that is not in the graph is refused. -/
theorem joinAll_cons_of_not_mem (h : ¬(s ∈ g.keys ∧ t ∈ g.keys)) (es : List (κ × κ)) :
    g.joinAll ((s, t) :: es) =
      .error (.invalidGraph (.foreignEdge (KeyText.quoted s) (KeyText.quoted t))) := by
  rw [joinAll]
  split
  · rename_i u v hu hv
    exact absurd ⟨mem_keys_of_node? hu, mem_keys_of_node? hv⟩ h
  · rfl

/-- Pairs of keys of the graph are joined in order. -/
theorem joinAll_of_mem (h : ∀ p ∈ es, p.1 ∈ g.keys ∧ p.2 ∈ g.keys) :
    ∃ g', g.joinAll es = .ok g' ∧ g'.keys = g.keys ∧
      (g.edgeKeys.Nodup → g'.edgeKeys = (g.edgeKeys ++ es).eraseDups) := by
  induction es generalizing g with
  | nil => exact ⟨g, rfl, rfl, fun hnodup => (eraseDups_append_nil hnodup).symm⟩
  | cons p es ih =>
    obtain ⟨s, t⟩ := p
    obtain ⟨hp, hrest⟩ := List.forall_mem_cons.1 h
    obtain ⟨g₁, hg₁, hkeys₁, hedges₁⟩ := joinAll_cons_of_mem hp.1 hp.2 es
    obtain ⟨g', hg', hkeys', hedges'⟩ := ih (g := g₁) (by rwa [hkeys₁])
    refine ⟨g', hg₁.trans hg', hkeys'.trans hkeys₁, fun hnodup => ?_⟩
    have hstep : g₁.edgeKeys = (g.edgeKeys ++ [(s, t)]).eraseDups := by
      rw [hedges₁, eraseDups_append_singleton hnodup]
    rw [hedges' (hstep ▸ nodup_eraseDups _), hstep, eraseDups_eraseDups_append, List.append_assoc]
    rfl

/-- The first pair with a key that is not in the graph is refused. -/
theorem joinAll_of_not_mem {before after : List (κ × κ)}
    (hbefore : ∀ p ∈ before, p.1 ∈ g.keys ∧ p.2 ∈ g.keys) (h : ¬(s ∈ g.keys ∧ t ∈ g.keys)) :
    g.joinAll (before ++ (s, t) :: after) =
      .error (.invalidGraph (.foreignEdge (KeyText.quoted s) (KeyText.quoted t))) := by
  induction before generalizing g with
  | nil => exact joinAll_cons_of_not_mem h after
  | cons p before ih =>
    obtain ⟨hp, hrest⟩ := List.forall_mem_cons.1 hbefore
    obtain ⟨g₁, hg₁, hkeys₁, -⟩ := joinAll_cons_of_mem hp.1 hp.2 (before ++ (s, t) :: after)
    rw [List.cons_append, hg₁]
    exact ih (by rwa [hkeys₁]) (by rwa [hkeys₁])

/-- The first listed pair with a key outside the listed ones is refused. -/
theorem ofLists_of_not_mem {ks : List κ} {before after : List (κ × κ)}
    (hbefore : ∀ p ∈ before, p.1 ∈ ks ∧ p.2 ∈ ks) (h : ¬(s ∈ ks ∧ t ∈ ks)) :
    ofLists ks (before ++ (s, t) :: after) =
      .error (.invalidGraph (.foreignEdge (KeyText.quoted s) (KeyText.quoted t))) := by
  refine joinAll_of_not_mem (fun p hp => ?_) ?_
  · simpa only [mem_keys_foldl_addNode] using hbefore p hp
  · simpa only [mem_keys_foldl_addNode] using h

/-- Pairs of listed keys are joined, and of keys and pairs the first copies are left. -/
theorem ofLists_of_mem {ks : List κ} (h : ∀ p ∈ es, p.1 ∈ ks ∧ p.2 ∈ ks) :
    ∃ g, ofLists ks es = .ok g ∧ g.keys = ks.eraseDups ∧ g.edgeKeys = es.eraseDups := by
  have hnone : (ks.foldl addNode empty).edgeKeys = [] := by
    rw [edgeKeys, edges_foldl_addNode]
    rfl
  have hmem : ∀ p ∈ es, p.1 ∈ (ks.foldl addNode empty).keys ∧
      p.2 ∈ (ks.foldl addNode empty).keys := by
    simpa only [mem_keys_foldl_addNode] using h
  obtain ⟨g, hg, hkeys, hedges⟩ := joinAll_of_mem hmem
  refine ⟨g, hg, ?_, ?_⟩
  · rw [hkeys, keys_foldl_addNode]
    rfl
  · rw [hedges (hnone ▸ List.nodup_nil), hnone, List.nil_append]

/-- The lists are refused if and only if an edge names a key outside the listed ones. -/
theorem exists_ofLists_eq_error_iff {ks : List κ} :
    (∃ e, ofLists ks es = .error e) ↔ ∃ p ∈ es, ¬(p.1 ∈ ks ∧ p.2 ∈ ks) := by
  constructor
  · rintro ⟨e, he⟩
    by_contra hall
    push Not at hall
    obtain ⟨g, hg, -⟩ := ofLists_of_mem hall
    cases he.symm.trans hg
  · intro hforeign
    have hfind : (es.find? fun p => decide ¬(p.1 ∈ ks ∧ p.2 ∈ ks)).isSome := by
      simpa only [List.find?_isSome, decide_eq_true_eq] using hforeign
    obtain ⟨p, hp⟩ := Option.isSome_iff_exists.1 hfind
    obtain ⟨hfound, before, after, rfl, hbefore⟩ := List.find?_eq_some_iff_append.1 hp
    exact ⟨_, ofLists_of_not_mem (by simpa using hbefore) (of_decide_eq_true hfound)⟩

/-- A graph without parallel edges is built again from its keys and its pairs of joined keys. -/
theorem ofLists_keys_edgeKeys (h : g.edges.toList.Nodup) :
    ofLists g.keys g.edgeKeys = .ok g := by
  have hmem : ∀ p ∈ g.edgeKeys, p.1 ∈ g.keys ∧ p.2 ∈ g.keys := by
    intro p hp
    obtain ⟨e, -, he⟩ := List.mem_filterMap.1 hp
    rw [keyPair?_eq_some_iff, ← node?_eq_some_iff, ← node?_eq_some_iff] at he
    exact ⟨mem_keys_of_node? he.1, mem_keys_of_node? he.2⟩
  obtain ⟨g', hg', hkeys, hedges⟩ := ofLists_of_mem hmem
  rw [eraseDups_of_nodup g.nodup_keys] at hkeys
  rw [eraseDups_of_nodup (nodup_edgeKeys h)] at hedges
  rw [hg', eq_of_keys_of_edgeKeys hkeys hedges]

end KeyedGraph

end FlowBubbles
