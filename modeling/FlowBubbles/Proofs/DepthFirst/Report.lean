import FlowBubbles.Digraph.StrongComponents
import FlowBubbles.Proofs.DepthFirst.Scan
import FlowBubbles.Proofs.Reachability

/-!
# What a depth-first search marks and tells

A scan finishes the fresh nodes that it meets and leaves all other marks alone. It discovers each of
them once, and meets everything that their edges lead to. An edge is a back edge exactly if its
target is another node of the path at the time when the edge is followed.
-/

namespace FlowBubbles

namespace DepthFirst

/-- The discovered nodes of a report, in order. -/
def discovered (es : List Event) : List Nat := es.filterMap Event.discovered?

/-- The back edges of a report, in order. -/
def backEdges (es : List Event) : List Edge := es.filterMap Event.backEdge?

section

variable {p : Option Nat} {w : Nat} {k : Mark} {es es₁ es₂ : List Event} {e : Edge}

@[simp] theorem discovered_nil : discovered [] = [] := rfl

@[simp] theorem discovered_enter :
    discovered (.discover w :: (es₁ ++ .finish w p :: es₂)) =
      w :: (discovered es₁ ++ discovered es₂) := by
  simp [discovered, List.filterMap_cons, Event.discovered?]

@[simp] theorem discovered_append : discovered (es₁ ++ es₂) = discovered es₁ ++ discovered es₂ :=
  List.filterMap_append ..

@[simp] theorem discovered_revisits : discovered (revisits p w k) = [] := by
  cases p <;> simp [discovered, revisits, Event.discovered?]

@[simp] theorem backEdges_nil : backEdges [] = [] := rfl

@[simp] theorem backEdges_append : backEdges (es₁ ++ es₂) = backEdges es₁ ++ backEdges es₂ :=
  List.filterMap_append ..

@[simp] theorem backEdges_enter :
    backEdges (.discover w :: (es₁ ++ .finish w p :: es₂)) = backEdges es₁ ++ backEdges es₂ := by
  simp [backEdges, List.filterMap_cons, Event.backEdge?]

/-- An edge to another node of the path is a back edge. -/
theorem backEdges_revisits {v : Nat} :
    backEdges (revisits (some v) w k) = if k = .active ∧ w ≠ v then [⟨v, w⟩] else [] := by
  by_cases hk : k = .active
  · by_cases hwv : w = v
    · simp [backEdges, revisits, Event.backEdge?, hk, hwv]
    · simp [backEdges, revisits, Event.backEdge?, hk, hwv]
  · simp [backEdges, revisits, List.filterMap_cons, Event.backEdge?, hk]

@[simp] theorem mem_backEdges_revisits :
    e ∈ backEdges (revisits p w k) ↔
      p = some e.source ∧ w = e.target ∧ k = .active ∧ e.source ≠ e.target := by
  obtain ⟨x, y⟩ := e
  cases p with
  | none => simp [backEdges, revisits]
  | some v =>
    rw [backEdges_revisits]
    split <;> simp <;> grind

theorem backEdges_revisits_of_ne (hk : k ≠ .active) : backEdges (revisits p w k) = [] :=
  List.eq_nil_iff_forall_not_mem.2 fun _ he => hk (mem_backEdges_revisits.1 he).2.2.1

end

variable {a : Adjacency} {p : Option Nat} {ws : List Nat} {m m' : Nat → Mark} {es : List Event}
  {x y : Nat}

/-! ## Marks -/

theorem update_active_eq_active_iff :
    Function.update m x .active y = .active ↔ y = x ∨ m y = .active := by
  by_cases hyx : y = x <;> simp [hyx]

theorem update_done_eq_active_iff :
    Function.update m x .done y = .active ↔ y ≠ x ∧ m y = .active := by
  by_cases hyx : y = x <;> simp [hyx]

/-- A scan leaves a mark alone or finishes a fresh node. -/
theorem Scan.mark_eq_or (h : Scan a p ws m es m') (x : Nat) :
    m' x = m x ∨ m x = .fresh ∧ m' x = .done := by
  induction h with
  | nil => exact .inl rfl
  | @enter p w ws m m₁ m₂ es₁ es₂ hw _ _ ihbelow ihrest =>
    by_cases hx : x = w
    · -- `w` is finished before the rest, which leaves it alone
      subst hx
      rw [Function.update_self] at ihrest
      exact .inr ⟨hw, by simpa using ihrest⟩
    · rw [Function.update_of_ne hx] at ihbelow ihrest
      grind
  | skip _ _ ih => exact ih

/-- A scan leaves the mark of a node alone that was met before. -/
theorem Scan.mark_of_met (h : Scan a p ws m es m') (hx : m x ≠ .fresh) : m' x = m x := by
  have := h.mark_eq_or x
  grind

/-- A node that was met before stays met. -/
theorem Scan.met_of_met (h : Scan a p ws m es m') (hx : m x ≠ .fresh) : m' x ≠ .fresh := by
  rwa [h.mark_of_met hx]

/-- No new node is left on the path. -/
theorem Scan.active_iff (h : Scan a p ws m es m') : m' x = .active ↔ m x = .active := by
  have := h.mark_eq_or x
  grind

/-- When a node that was entered is left, the path is the same as before. -/
theorem Scan.active_left_iff (h : Scan a p ws (Function.update m x .active) es m')
    (hx : m x = .fresh) : Function.update m' x .done y = .active ↔ m y = .active := by
  rw [update_done_eq_active_iff, h.active_iff, update_active_eq_active_iff]
  by_cases hyx : y = x <;> simp [hyx, hx]

/-- A node that was met before a node was entered is met when that node is left. -/
theorem Scan.met_left_of_met (h : Scan a p ws (Function.update m x .active) es m')
    (hy : m y ≠ .fresh) : Function.update m' x .done y ≠ .fresh := by
  by_cases hyx : y = x
  · simp [hyx]
  · rw [Function.update_of_ne hyx]
    exact h.met_of_met (by rwa [Function.update_of_ne hyx])

/-- All listed nodes are met. -/
theorem Scan.met_of_mem (h : Scan a p ws m es m') (hx : x ∈ ws) : m' x ≠ .fresh := by
  induction h with
  | nil => cases hx
  | @enter p w ws m m₁ m₂ es₁ es₂ hw _ hrest _ ihrest =>
    rcases List.mem_cons.1 hx with rfl | hx
    · exact hrest.met_of_met (by simp)
    · exact ihrest hx
  | skip hw hrest ih =>
    rcases List.mem_cons.1 hx with rfl | hx
    · exact hrest.met_of_met hw
    · exact ih hx

/-! ## Discovered nodes -/

/-- What is met for the first time is finished. -/
theorem Scan.done_of_fresh (h : Scan a p ws m es m') (hx : m x = .fresh) (hx' : m' x ≠ .fresh) :
    m' x = .done := by
  have := h.mark_eq_or x
  grind

/-- A node is discovered if and only if it is met for the first time. -/
theorem Scan.mem_discovered (h : Scan a p ws m es m') :
    x ∈ discovered es ↔ m x = .fresh ∧ m' x ≠ .fresh := by
  induction h with
  | nil => simp
  | @enter p w ws m m₁ m₂ es₁ es₂ hw hbelow hrest ihbelow ihrest =>
    have hbelow := hbelow.mark_eq_or x
    have hrest := hrest.mark_eq_or x
    by_cases hx : x = w
    · subst hx
      simp_all
    · simp only [discovered_enter, List.mem_cons, List.mem_append, ihbelow, ihrest, hx,
        Function.update_of_ne hx, false_or] at hbelow hrest ⊢
      grind
  | skip _ _ ih => rw [discovered_append, discovered_revisits, List.nil_append, ih]

theorem Scan.not_mem_discovered (h : Scan a p ws m es m') (hx : m x ≠ .fresh) :
    x ∉ discovered es := fun hdisc => hx (h.mem_discovered.1 hdisc).1

theorem Scan.lt_size_of_mem_discovered (h : Scan a p ws m es m') (hlt : ∀ w ∈ ws, w < a.size)
    (hx : x ∈ discovered es) : x < a.size := by
  induction h with
  | nil => simp at hx
  | enter _ _ _ ihbelow ihrest =>
    simp only [List.mem_cons, forall_eq_or_imp] at hlt
    simp only [discovered_enter, List.mem_cons, List.mem_append] at hx
    rcases hx with rfl | hx | hx
    · exact hlt.1
    · exact ihbelow (fun w hw => (a.lt_of_mem_succ hw).2) hx
    · exact ihrest hlt.2 hx
  | skip _ _ ih => exact ih (fun w hw => hlt w (List.mem_cons_of_mem _ hw)) (by simpa using hx)

/-- No node is discovered twice. -/
theorem Scan.nodup_discovered (h : Scan a p ws m es m') : (discovered es).Nodup := by
  induction h with
  | nil => simp
  | @enter p w ws m m₁ m₂ es₁ es₂ hw hbelow hrest ihbelow ihrest =>
    have hbelowmem := fun x => hbelow.mem_discovered (x := x)
    have hrestmem := fun x => hrest.mem_discovered (x := x)
    rw [discovered_enter, List.nodup_cons, List.nodup_append]
    -- neither `w` nor what is met below it is fresh afterwards
    refine ⟨?_, ihbelow, ihrest, ?_⟩
    · simp [hbelowmem, hrestmem]
    · rintro x hx _ hx' rfl
      rw [hbelowmem] at hx
      rw [hrestmem] at hx'
      by_cases hxw : x = w
      · simp [hxw] at hx'
      · simp_all
  | skip _ _ ih => rwa [discovered_append, discovered_revisits, List.nil_append]

/-- Everything that the edges out of a discovered node lead to is met. -/
theorem Scan.met_of_mem_succ (h : Scan a p ws m es m') (hx : x ∈ discovered es)
    (hy : y ∈ a.succ x) : m' y ≠ .fresh := by
  induction h with
  | nil => simp at hx
  | @enter p w ws m m₁ m₂ es₁ es₂ hw hbelow hrest ihbelow ihrest =>
    have hmet : m₁ y ≠ .fresh → m₂ y ≠ .fresh := fun hm₁ => hrest.met_of_met (by
      by_cases hyw : y = w <;> simp [hyw, hm₁])
    rw [discovered_enter, List.mem_cons, List.mem_append] at hx
    rcases hx with rfl | hx | hx
    · exact hmet (hbelow.met_of_mem hy)
    · exact hmet (ihbelow hx)
    · exact ihrest hx
  | skip _ _ ih => exact ih (by simpa using hx)

/-! ## Back edges -/

/-- A back edge leaves the end of the path or a discovered node, and its target is on the path or
discovered before its source. -/
theorem Scan.of_mem_backEdges (h : Scan a p ws m es m') {e : Edge} (he : e ∈ backEdges es) :
    e.source ≠ e.target ∧
      (p = some e.source ∧ m e.target = .active ∧ e.target ∈ ws ∨
        e.source ∈ discovered es ∧ e.target ∈ a.succ e.source ∧
          (m e.target = .active ∨ [e.target, e.source].Sublist (discovered es))) := by
  induction h with
  | nil => simp at he
  | @enter p w ws m m₁ m₂ es₁ es₂ hw hbelow hrest ihbelow ihrest =>
    rw [backEdges_enter, List.mem_append] at he
    rw [discovered_enter]
    -- what is on the path after `w` was on it before
    have hactive : ∀ {y}, y ≠ w → m₁ y = .active → m y = .active := by
      intro y hy h
      rwa [hbelow.active_iff, Function.update_of_ne hy] at h
    rcases he with he | he
    · obtain ⟨hne, ⟨hp, hmark, hmem⟩ | ⟨hdisc, hmem, hmark | hsub⟩⟩ := ihbelow he
      · obtain rfl : w = e.source := Option.some.inj hp
        rw [Function.update_of_ne hne.symm] at hmark
        exact ⟨hne, .inr ⟨List.mem_cons_self, hmem, .inl hmark⟩⟩
      · refine ⟨hne, .inr ⟨List.mem_cons_of_mem _ (List.mem_append_left _ hdisc), hmem, ?_⟩⟩
        by_cases hy : e.target = w
        · -- an edge back to `w` itself, which is discovered first
          rw [hy]
          exact .inr ((List.singleton_sublist.2 (List.mem_append_left _ hdisc)).cons_cons w)
        · rw [Function.update_of_ne hy] at hmark
          exact .inl hmark
      · exact ⟨hne, .inr ⟨List.mem_cons_of_mem _ (List.mem_append_left _ hdisc), hmem,
          .inr ((hsub.trans (List.sublist_append_left ..)).cons w)⟩⟩
    · obtain ⟨hne, ⟨hp, hmark, hmem⟩ | ⟨hdisc, hmem, hmark | hsub⟩⟩ := ihrest he
      · have hy : e.target ≠ w := fun h => by simp [h] at hmark
        rw [Function.update_of_ne hy] at hmark
        exact ⟨hne, .inl ⟨hp, hactive hy hmark, List.mem_cons_of_mem _ hmem⟩⟩
      · have hy : e.target ≠ w := fun h => by simp [h] at hmark
        rw [Function.update_of_ne hy] at hmark
        exact ⟨hne, .inr ⟨List.mem_cons_of_mem _ (List.mem_append_right _ hdisc), hmem,
          .inl (hactive hy hmark)⟩⟩
      · exact ⟨hne, .inr ⟨List.mem_cons_of_mem _ (List.mem_append_right _ hdisc), hmem,
          .inr ((hsub.trans (List.sublist_append_right ..)).cons w)⟩⟩
  | skip _ _ ih =>
    rw [backEdges_append, List.mem_append, mem_backEdges_revisits] at he
    rw [discovered_append, discovered_revisits, List.nil_append]
    rcases he with ⟨hp, rfl, hactive, hne⟩ | he
    · exact ⟨hne, .inl ⟨hp, hactive, List.mem_cons_self⟩⟩
    · obtain ⟨hne, ⟨hp, hactive, hmem⟩ | hdisc⟩ := ih he
      · exact ⟨hne, .inl ⟨hp, hactive, List.mem_cons_of_mem _ hmem⟩⟩
      · exact ⟨hne, .inr hdisc⟩

/-- The source of a back edge is discovered unless it is the end of the path. -/
theorem Scan.source_mem_discovered (h : Scan a p ws m es m') {e : Edge} (he : e ∈ backEdges es)
    (hp : p ≠ some e.source) : e.source ∈ discovered es := by
  obtain ⟨-, ⟨hp', -, -⟩ | ⟨hdisc, -, -⟩⟩ := h.of_mem_backEdges he
  · exact absurd hp' hp
  · exact hdisc

/-- The target of a back edge is no finished node. -/
theorem Scan.target_ne_done (h : Scan a p ws m es m') {e : Edge} (he : e ∈ backEdges es) :
    m e.target ≠ .done := by
  obtain ⟨-, ⟨-, hactive, -⟩ | ⟨-, -, hactive | hsub⟩⟩ := h.of_mem_backEdges he
  · simp [hactive]
  · simp [hactive]
  · simp [(h.mem_discovered.1 (hsub.subset List.mem_cons_self)).1]

/-- The target of a back edge is met. -/
theorem Scan.target_met (h : Scan a p ws m es m') {e : Edge} (he : e ∈ backEdges es) :
    m' e.target ≠ .fresh := by
  obtain ⟨-, ⟨-, hactive, -⟩ | ⟨-, -, hactive | hsub⟩⟩ := h.of_mem_backEdges he
  · simp [h.active_iff.2 hactive]
  · simp [h.active_iff.2 hactive]
  · exact (h.mem_discovered.1 (hsub.subset List.mem_cons_self)).2

/-- An edge to another node of the path is a back edge, whether it leaves the end of the path or a
node that is discovered. -/
theorem Scan.mem_backEdges (h : Scan a p ws m es m') (hy : m y = .active) (hne : x ≠ y)
    (hedge : p = some x ∧ y ∈ ws ∨ x ∈ discovered es ∧ y ∈ a.succ x) :
    ⟨x, y⟩ ∈ backEdges es := by
  induction h with
  | nil => simp at hedge
  | @enter p w ws m m₁ m₂ es₁ es₂ hw hbelow hrest ihbelow ihrest =>
    -- `y` stays on the path while `w` is dealt with
    have hyw : y ≠ w := fun h => by simp [h, hw] at hy
    have hy₁ : Function.update m w .active y = .active := by rwa [Function.update_of_ne hyw]
    have hy₂ : Function.update m₁ w .done y = .active := by
      rwa [Function.update_of_ne hyw, hbelow.active_iff]
    rw [backEdges_enter, List.mem_append]
    simp only [discovered_enter, List.mem_cons, List.mem_append] at hedge
    obtain ⟨hp, hmem⟩ | ⟨rfl | hx | hx, hmem⟩ := hedge
    · exact .inr (ihrest hy₂ (.inl ⟨hp, hmem.resolve_left hyw⟩))
    · exact .inl (ihbelow hy₁ (.inl ⟨rfl, hmem⟩))
    · exact .inl (ihbelow hy₁ (.inr ⟨hx, hmem⟩))
    · exact .inr (ihrest hy₂ (.inr ⟨hx, hmem⟩))
  | @skip p w ws m m' es hw _ ih =>
    rw [backEdges_append, List.mem_append, mem_backEdges_revisits]
    rw [discovered_append, discovered_revisits, List.nil_append, List.mem_cons] at hedge
    obtain ⟨hp, rfl | hmem⟩ | hedge := hedge
    · exact .inl ⟨hp, rfl, hy, hne⟩
    · exact .inr (ih hy (.inl ⟨hp, hmem⟩))
    · exact .inr (ih hy (.inr hedge))

/-! ## The path -/

/-- `p` is the end of the path, whose nodes all reach it, and edges run from it to the listed
nodes. -/
structure Along (a : Adjacency) (p : Option Nat) (ws : List Nat) (m : Nat → Mark) : Prop where
  active : ∀ v, p = some v → m v = .active
  reaches : ∀ y, m y = .active → ∃ v, p = some v ∧ a.Reaches y v
  mem_succ : ∀ v, p = some v → ∀ w ∈ ws, w ∈ a.succ v

namespace Along

variable {w : Nat} {m₁ : Nat → Mark} {es₁ : List Event}

theorem start : Along a none ws fun _ => .fresh := by
  constructor <;> simp

theorem tail (h : Along a p (w :: ws) m) : Along a p ws m :=
  ⟨h.active, h.reaches, fun v hv x hx => h.mem_succ v hv x (List.mem_cons_of_mem _ hx)⟩

theorem head (h : Along a p (w :: ws) m) : Along a p [w] m :=
  ⟨h.active, h.reaches, fun v hv x hx =>
    h.mem_succ v hv x (List.mem_singleton.1 hx ▸ List.mem_cons_self)⟩

theorem reaches_head (h : Along a p (w :: ws) m) (hy : m y = .active) : a.Reaches y w := by
  obtain ⟨v, hv, hyv⟩ := h.reaches y hy
  exact hyv.tail (h.mem_succ v hv w List.mem_cons_self)

theorem enter (h : Along a p (w :: ws) m) :
    Along a (some w) (a.succ w) (Function.update m w .active) := by
  refine ⟨fun v hv => ?_, fun y hy => ⟨w, rfl, ?_⟩, fun v hv x hx => ?_⟩
  · obtain rfl := Option.some.inj hv
    simp
  · rcases update_active_eq_active_iff.1 hy with rfl | hy
    · exact .refl y
    · exact h.reaches_head hy
  · obtain rfl := Option.some.inj hv
    exact hx

theorem leave (h : Along a p (w :: ws) m) (hw : m w = .fresh)
    (hbelow : Scan a (some w) (a.succ w) (Function.update m w .active) es₁ m₁) :
    Along a p ws (Function.update m₁ w .done) := by
  have hiff : ∀ y, Function.update m₁ w .done y = .active ↔ m y = .active := fun y =>
    hbelow.active_left_iff hw
  exact ⟨fun v hv => (hiff v).2 (h.active v hv), fun y hy => h.reaches y ((hiff y).1 hy),
    h.tail.mem_succ⟩

end Along

/-- The target of a back edge reaches its source. -/
theorem Scan.reaches_of_mem_backEdges (h : Scan a p ws m es m') (hpath : Along a p ws m)
    {e : Edge} (he : e ∈ backEdges es) : a.Reaches e.target e.source := by
  induction h with
  | nil => simp at he
  | enter hw hbelow _ ihbelow ihrest =>
    rw [backEdges_enter, List.mem_append] at he
    rcases he with he | he
    · exact ihbelow hpath.enter he
    · exact ihrest (hpath.leave hw hbelow) he
  | skip _ _ ih =>
    rw [backEdges_append, List.mem_append, mem_backEdges_revisits] at he
    rcases he with ⟨hp, rfl, hactive, -⟩ | he
    · -- every node of the path reaches its end, which the edge leaves
      obtain ⟨v, hv, hreaches⟩ := hpath.reaches _ hactive
      rw [hp] at hv
      rwa [Option.some.inj hv]
    · exact ih hpath.tail he

/-! ## The whole search -/

/-- The search finds every node, once. -/
theorem perm_discovered_depthFirst (a : Adjacency) :
    (discovered a.depthFirst).Perm a.nodes := by
  obtain ⟨m, hscan⟩ := a.scan_depthFirst
  refine (List.perm_ext_iff_of_nodup hscan.nodup_discovered List.nodup_range).2 fun x => ?_
  constructor
  · exact fun hx => Adjacency.mem_nodes.2
      (hscan.lt_size_of_mem_discovered (fun w hw => Adjacency.mem_nodes.1 hw) hx)
  · exact fun hx => hscan.mem_discovered.2 ⟨rfl, hscan.met_of_mem hx⟩

/-- A back edge is an edge to another node, which is discovered before its source. -/
theorem of_mem_backEdges_depthFirst {e : Edge} (he : e ∈ backEdges a.depthFirst) :
    e.source ≠ e.target ∧ e.target ∈ a.succ e.source ∧
      [e.target, e.source].Sublist (discovered a.depthFirst) := by
  obtain ⟨m, hscan⟩ := a.scan_depthFirst
  obtain ⟨hne, ⟨hp, -, -⟩ | ⟨-, hmem, hactive | hsub⟩⟩ := hscan.of_mem_backEdges he
  · simp at hp
  · simp at hactive
  · exact ⟨hne, hmem, hsub⟩

/-- The target of a back edge reaches its source. -/
theorem reaches_of_mem_backEdges_depthFirst {e : Edge} (he : e ∈ backEdges a.depthFirst) :
    a.Reaches e.target e.source := by
  obtain ⟨m, hscan⟩ := a.scan_depthFirst
  exact hscan.reaches_of_mem_backEdges .start he

/-- The search knows a node by its position among the discovered ones. -/
theorem discovery_get (hx : x < a.size) :
    a.strongComponents.discovery.get x = (discovered a.depthFirst).idxOf x := by
  obtain ⟨m, hscan⟩ := a.scan_depthFirst
  have hmem : x ∈ discovered a.depthFirst :=
    (perm_discovered_depthFirst a).mem_iff.2 (Adjacency.mem_nodes.2 hx)
  exact (NodeMap.get_positions hscan.nodup_discovered 0 x).trans (if_pos hmem)

/-- Discovery indices grow along the list of discovered nodes. -/
theorem discovery_lt_of_sublist (h : [x, y].Sublist (discovered a.depthFirst)) :
    a.strongComponents.discovery.get x < a.strongComponents.discovery.get y := by
  obtain ⟨m, hscan⟩ := a.scan_depthFirst
  have hlt : ∀ z ∈ [x, y], z < a.size := fun z hz =>
    Adjacency.mem_nodes.1 ((perm_discovered_depthFirst a).mem_iff.1 (h.subset hz))
  have hsorted := (pairwise_idxOf_lt hscan.nodup_discovered).sublist h
  rw [discovery_get (hlt x (by simp)), discovery_get (hlt y (by simp))]
  simpa using hsorted

/-- A back edge leads back in the order of discovery. -/
theorem discovery_lt_of_mem_backEdges {e : Edge} (he : e ∈ a.strongComponents.backEdges) :
    a.strongComponents.discovery.get e.target < a.strongComponents.discovery.get e.source :=
  discovery_lt_of_sublist (of_mem_backEdges_depthFirst he).2.2

end DepthFirst

end FlowBubbles
