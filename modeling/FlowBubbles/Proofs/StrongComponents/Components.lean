import FlowBubbles.Proofs.StrongComponents.Gathering

/-!
# The strongly connected components

The gathering follows the search. What a whole scan makes of it is put together from what single
events make of it: `Gathered` says what is on the stack afterwards and which edges the low point of
the end of the path accounts for. When the search is over, the stack is empty and the components are
settled.
-/

namespace FlowBubbles

namespace StrongComponents

open DepthFirst

variable {a : Adjacency} {disc : NodeMap Nat} {p : Option Nat} {w : Nat} {ws ws' : List Nat}
  {m m₁ m' m'' : Nat → Mark} {es es₁ es₂ : List Event} {s s₁ s' s'' : Gathering}

/-! ## Numbers in the order of discovery -/

/-- The discovered nodes of a report have growing numbers, greater than those of all nodes that
were met before. -/
structure Numbered (disc : NodeMap Nat) (m : Nat → Mark) (es : List Event) : Prop where
  sorted : (discovered es).Pairwise fun x y => disc.get x < disc.get y
  later : ∀ x, m x ≠ .fresh → ∀ y ∈ discovered es, disc.get x < disc.get y

namespace Numbered

theorem below (h : Numbered disc m (.discover w :: (es₁ ++ .finish w p :: es₂))) :
    Numbered disc (Function.update m w .active) es₁ := by
  have hsorted := h.sorted
  have hlater := h.later
  simp only [discovered_enter, List.pairwise_cons, List.pairwise_append, List.mem_cons,
    List.mem_append] at hsorted hlater
  refine ⟨hsorted.2.1, fun x hx y hy => ?_⟩
  by_cases hxw : x = w
  · exact hxw ▸ hsorted.1 y (.inl hy)
  · rw [Function.update_of_ne hxw] at hx
    exact hlater x hx y (.inr (.inl hy))

theorem rest (h : Numbered disc m (.discover w :: (es₁ ++ .finish w p :: es₂)))
    (hbelow : Scan a (some w) (a.succ w) (Function.update m w .active) es₁ m₁) :
    Numbered disc (Function.update m₁ w .done) es₂ := by
  have hsorted := h.sorted
  have hlater := h.later
  simp only [discovered_enter, List.pairwise_cons, List.pairwise_append, List.mem_cons,
    List.mem_append] at hsorted hlater
  refine ⟨hsorted.2.2.1, fun x hx y hy => ?_⟩
  by_cases hxw : x = w
  · exact hxw ▸ hsorted.1 y (.inr hy)
  · rw [Function.update_of_ne hxw] at hx
    by_cases hmx : m x = .fresh
    · have hdisc := hbelow.mem_discovered.2 ⟨by rwa [Function.update_of_ne hxw], hx⟩
      exact hsorted.2.2.2 x hdisc y hy
    · exact hlater x hmx y (.inr (.inr hy))

theorem skip {k : Mark} (h : Numbered disc m (revisits p w k ++ es)) : Numbered disc m es := by
  constructor
  · simpa using h.sorted
  · simpa using h.later

end Numbered

/-! ## A scan of the search -/

/-- What the gathering has come to after a scan of the nodes `ws` below `p`. -/
structure Gathered (a : Adjacency) (disc : NodeMap Nat) (p : Option Nat) (ws : List Nat)
    (m : Nat → Mark) (s : Gathering) (m' : Nat → Mark) (s' : Gathering) : Prop where
  sound : s'.Sound a disc m'
  /-- New nodes lie above the old stack. The edges from them down to it are accounted for. -/
  stack : ∃ T, s'.stack = T ++ s.stack ∧ (∀ x ∈ T, m x = .fresh) ∧
    ∀ v, p = some v → ∀ x ∈ T, ∀ y ∈ a.succ x, y ∈ s.stack → s'.low.get v ≤ disc.get y
  low_eq : ∀ x, m x ≠ .fresh → p ≠ some x → s'.low.get x = s.low.get x
  low_le : ∀ v, p = some v → s'.low.get v ≤ s.low.get v
  low_row : ∀ v, p = some v → ∀ w ∈ ws, w ∈ s.stack → s'.low.get v ≤ disc.get w

namespace Gathered

theorem nil (hs : s.Sound a disc m) : Gathered a disc p [] m s m s :=
  ⟨hs, ⟨[], by simp⟩, fun _ _ _ => rfl, fun _ _ => Nat.le_refl _, by simp⟩

/-- Two scans one after the other. -/
theorem append (h : Gathered a disc p ws m s m' s') (h' : Gathered a disc p ws' m' s' m'' s'')
    (hmet : ∀ x, m x ≠ .fresh → m' x ≠ .fresh) : Gathered a disc p (ws ++ ws') m s m'' s'' := by
  obtain ⟨T, hT, hfresh, hedges⟩ := h.stack
  obtain ⟨T', hT', hfresh', hedges'⟩ := h'.stack
  have hkept : ∀ y ∈ s.stack, y ∈ s'.stack := fun y hy => hT ▸ List.mem_append_right _ hy
  refine ⟨h'.sound, ⟨T' ++ T, by simp [hT', hT], fun x hx => ?_, fun v hv x hx y hy hmem => ?_⟩,
    fun x hx hp => ?_, fun v hv => ?_, fun v hv w hw hmem => ?_⟩
  · rcases List.mem_append.1 hx with hx | hx
    · by_contra hne
      exact hmet x hne (hfresh' x hx)
    · exact hfresh x hx
  · rcases List.mem_append.1 hx with hx | hx
    · exact hedges' v hv x hx y hy (hkept y hmem)
    · exact Nat.le_trans (h'.low_le v hv) (hedges v hv x hx y hy hmem)
  · rw [h'.low_eq x (hmet x hx) hp, h.low_eq x hx hp]
  · exact Nat.le_trans (h'.low_le v hv) (h.low_le v hv)
  · rcases List.mem_append.1 hw with hw | hw
    · exact Nat.le_trans (h'.low_le v hv) (h.low_row v hv w hw hmem)
    · exact h'.low_row v hv w hw (hkept w hmem)

/-- An edge to a node that was met before lowers the low point if that node is on the stack. -/
theorem skip (hs : s.Sound a disc m) (hpath : Along a p [w] m) :
    Gathered a disc p [w] m s m ((revisits p w (m w)).foldl (Gathering.read disc) s) := by
  cases p with
  | none => exact ⟨hs, ⟨[], by simp [revisits]⟩, fun _ _ _ => rfl, by simp, by simp⟩
  | some v =>
    rw [revisits, List.foldl_cons, List.foldl_nil, Gathering.read]
    split
    · rename_i hstacked
      have hw := (hs.stacked_iff w).1 hstacked
      have hedge := hpath.mem_succ v rfl w List.mem_cons_self
      refine ⟨hs.lower hw (.single hedge), ⟨[], by simp [Gathering.lower]⟩, ?_, ?_, ?_⟩
      · intro x _ hx
        have hne : x ≠ v := fun h => hx (by rw [h])
        simp [Gathering.lower, hne]
      · intro u hu
        simp [Gathering.lower, Option.some.inj hu]
      · intro u hu y hy _
        simp [Gathering.lower, Option.some.inj hu, List.mem_singleton.1 hy]
    · rename_i hstacked
      refine ⟨hs, ⟨[], by simp⟩, fun _ _ _ => rfl, fun _ _ => Nat.le_refl _, fun u _ y hy hmem => ?_⟩
      rw [List.mem_singleton.1 hy] at hmem
      exact absurd ((hs.stacked_iff w).2 hmem) hstacked

/-- A fresh node is put on the stack, and finished when everything below it is dealt with. -/
theorem enter (hw : m w = .fresh) (hs : s.Sound a disc m) (hpath : Along a p [w] m)
    (hscan : Scan a (some w) (a.succ w) (Function.update m w .active) es m₁)
    (hbelow : Gathered a disc (some w) (a.succ w) (Function.update m w .active)
      (s.read disc (.discover w)) m₁ s₁) :
    Gathered a disc p [w] m s (Function.update m₁ w .done) (s₁.read disc (.finish w p)) := by
  obtain ⟨T, hT, hfresh, hedges⟩ := hbelow.stack
  change s₁.stack = T ++ w :: s.stack at hT
  -- below `w` only its own low point and those of new nodes are lowered
  have hold : ∀ x, m x ≠ .fresh → x ≠ w ∧ s₁.low.get x = s.low.get x := by
    intro x hx
    have hxw : x ≠ w := fun h => hx (h ▸ hw)
    have hlow := hbelow.low_eq x (by rwa [Function.update_of_ne hxw]) (by simpa using hxw.symm)
    exact ⟨hxw, by simpa [Gathering.read, hxw] using hlow⟩
  have hactive : ∀ x ∈ T, m₁ x ≠ .active := by
    intro x hx hmark
    rw [hscan.active_iff, hfresh x hx] at hmark
    cases hmark
  -- every edge down to the old stack is accounted for at `w`
  have hsucc : ∀ x ∈ T ++ [w], ∀ y ∈ a.succ x,
      m₁ y ≠ .fresh ∧ (y ∈ s.stack → s₁.low.get w ≤ disc.get y) := by
    intro x hx y hy
    rcases List.mem_append.1 hx with hx | hx
    · have hmet := (hbelow.sound.met_iff x).2 (.inl (hT ▸ List.mem_append_left _ hx))
      exact ⟨hscan.met_of_mem_succ (hscan.mem_discovered.2 ⟨hfresh x hx, hmet⟩) hy,
        fun hmem => hedges w rfl x hx y hy (List.mem_cons_of_mem _ hmem)⟩
    · rw [List.mem_singleton.1 hx] at hy
      exact ⟨hscan.met_of_mem hy,
        fun hmem => hbelow.low_row w rfl y hy (List.mem_cons_of_mem _ hmem)⟩
  have hp : ∀ v, p = some v → v ≠ w ∧ a.Reaches v w := by
    intro v hv
    have hmark := hpath.active v hv
    exact ⟨(hold v (by simp [hmark])).1, hpath.reaches_head hmark⟩
  obtain ⟨hsound, hstack⟩ :=
    hbelow.sound.finish (hscan.active_iff.2 (by simp)) hT hactive hsucc hp
  refine ⟨hsound, ?_, ?_, ?_, ?_⟩
  · rcases hstack with hstack | hstack
    · exact ⟨[], by simpa using hstack, by simp, by simp⟩
    · refine ⟨T ++ [w], hstack, ?_, ?_⟩
      · intro x hx
        by_cases hxw : x = w
        · rwa [hxw]
        · have hxT : x ∈ T := by simpa [hxw] using hx
          simpa [hxw] using hfresh x hxT
      · intro v hv x hx y hy hmem
        rw [Gathering.low_read_finish, if_pos hv]
        exact Nat.le_trans (Nat.min_le_right ..) ((hsucc x hx y hy).2 hmem)
  · intro x hx hpx
    rw [Gathering.low_read_finish, if_neg hpx, (hold x hx).2]
  · intro v hv
    have hmark := hpath.active v hv
    rw [Gathering.low_read_finish, if_pos hv, ← (hold v (by simp [hmark])).2]
    exact Nat.min_le_left ..
  · intro v _ x hx hmem
    rw [List.mem_singleton.1 hx] at hmem
    exact absurd hw ((hs.met_iff w).2 (.inl hmem))

end Gathered

/-- The gathering of a scan. -/
theorem gathered (h : Scan a p ws m es m') (hpath : Along a p ws m) (hnum : Numbered disc m es)
    (hs : s.Sound a disc m) :
    Gathered a disc p ws m s m' (es.foldl (Gathering.read disc) s) := by
  induction h generalizing s with
  | nil => exact .nil hs
  | @enter p w ws m m₁ m₂ es₁ es₂ hw hbelow hrest ihbelow ihrest =>
    have hlater : ∀ x, m x ≠ .fresh → disc.get x < disc.get w :=
      fun x hx => hnum.later x hx w (by simp)
    have hbelow' := ihbelow hpath.enter hnum.below
      (hs.discover hw hlater fun y hy => hpath.reaches_head hy)
    have hfirst := Gathered.enter hw hs hpath.head hbelow hbelow'
    have hrest' := ihrest (hpath.leave hw hbelow) (hnum.rest hbelow) hfirst.sound
    simpa using hfirst.append hrest' fun x hx => hbelow.met_left_of_met hx
  | @skip p w ws m m' es hw hrest ih =>
    have hfirst := Gathered.skip hs hpath.head
    have hrest' := ih hpath.tail hnum.skip hfirst.sound
    simpa using hfirst.append hrest' fun _ hx => hx

/-! ## The whole search -/

theorem numbered_depthFirst (a : Adjacency) :
    Numbered a.strongComponents.discovery (fun _ => .fresh) a.depthFirst := by
  obtain ⟨m, hscan⟩ := a.scan_depthFirst
  refine ⟨(pairwise_idxOf_lt hscan.nodup_discovered).imp_of_mem fun {x y} hx hy hlt => ?_,
    fun x hx => absurd rfl hx⟩
  have hlt_size : ∀ {x}, x ∈ discovered a.depthFirst → x < a.size := fun hx =>
    Adjacency.mem_nodes.1 ((perm_discovered_depthFirst a).mem_iff.1 hx)
  rwa [discovery_get (hlt_size hx), discovery_get (hlt_size hy)]

theorem settled (a : Adjacency) :
    Settled a a.strongComponents.discovery.get a.strongComponents.components := by
  obtain ⟨m, hscan⟩ := a.scan_depthFirst
  exact (gathered hscan .start (numbered_depthFirst a) Gathering.Sound.start).sound.settled

/-- Every node is in one component, and nowhere else. -/
theorem perm_components (a : Adjacency) :
    a.strongComponents.components.flatten.Perm a.nodes := by
  obtain ⟨m, hscan⟩ := a.scan_depthFirst
  have hsound := (gathered hscan .start (numbered_depthFirst a) Gathering.Sound.start).sound
  refine (List.perm_ext_iff_of_nodup (settled a).nodup List.nodup_range).2 fun x => ?_
  have hmet := hsound.met_iff x
  constructor
  · intro hx
    have hdisc := hscan.mem_discovered.2 ⟨rfl, hmet.2 (.inr hx)⟩
    exact (perm_discovered_depthFirst a).mem_iff.1 hdisc
  · intro hx
    refine (hmet.1 (hscan.met_of_mem hx)).resolve_left fun hstack => ?_
    -- the path is empty when the search is over, so nothing is left on the stack
    obtain ⟨y, hy, -, -⟩ := hsound.reaches_path x hstack
    rw [hscan.active_iff] at hy
    cases hy

theorem mem_components_iff {a : Adjacency} {x : Nat} :
    x ∈ a.strongComponents.components.flatten ↔ x < a.size := by
  rw [(perm_components a).mem_iff, Adjacency.mem_nodes]

/-- The discovered nodes have the numbers from 0 on, in order. -/
theorem map_discovery (a : Adjacency) :
    (discovered a.depthFirst).map a.strongComponents.discovery.get = List.range a.size := by
  obtain ⟨m, hscan⟩ := a.scan_depthFirst
  have hperm := perm_discovered_depthFirst a
  have hlen : (discovered a.depthFirst).length = a.size := by
    rw [hperm.length_eq, Adjacency.nodes, List.length_range]
  have hget : (discovered a.depthFirst).map a.strongComponents.discovery.get =
      (discovered a.depthFirst).map fun x => (discovered a.depthFirst).idxOf x :=
    List.map_congr_left fun x hx => discovery_get (Adjacency.mem_nodes.1 (hperm.mem_iff.1 hx))
  rw [hget]
  refine List.ext_getElem (by simp [hlen]) fun i hi _ => ?_
  simp [hscan.nodup_discovered.idxOf_getElem]

/-- The discovery indices of the nodes are the numbers below the number of nodes, each once. -/
theorem perm_discovery (a : Adjacency) :
    (a.strongComponents.discovery.row a.size).Perm (List.range a.size) := by
  rw [← map_discovery a]
  exact (perm_discovered_depthFirst a).symm.map _

/-- The components part the nodes into classes of nodes that reach each other. An edge between two
components leads to the earlier one, each component lists its nodes by falling discovery, and the
discovery indices are the numbers below the number of nodes. -/
theorem components_partition {κ : Type} (g : Digraph κ) :
    let s := g.adjacency.strongComponents
    (s.components.flatten.Perm g.nodes ∧ ∀ c ∈ s.components, c ≠ []) ∧
      (∀ u < g.size, ∀ v < g.size,
        (∃ c ∈ s.components, u ∈ c ∧ v ∈ c) ↔
          g.adjacency.Reaches u v ∧ g.adjacency.Reaches v u) ∧
      (∀ i j, ∀ (hi : i < s.components.length) (hj : j < s.components.length), i ≠ j →
        ∀ e ∈ g.edges, e.source ∈ s.components[i] → e.target ∈ s.components[j] → j < i) ∧
      (∀ c ∈ s.components, c.Pairwise fun u v => s.discovery.get v < s.discovery.get u) ∧
      (s.discovery.row g.size).Perm (List.range g.size) := by
  have hsettled := settled g.adjacency
  refine ⟨⟨perm_components _, hsettled.ne_nil⟩, ?_, ?_, hsettled.sorted, perm_discovery _⟩
  · intro u hu v _
    exact hsettled.exists_mem_iff (mem_components_iff.2 hu)
  · intro i j hi hj hne e he hs ht
    refine hsettled.lt_of_mem_succ hi hj hs ht ?_ hne
    exact Digraph.mem_succ_adjacency.2 (by simpa using he)

end StrongComponents

end FlowBubbles
