import FlowBubbles.Proofs.DepthFirst.Report

/-!
# Turning a back edge around

A back edge leads to a node that the search was at before and comes back to. Turned around, it is
followed there last, when its other end is long finished, and nothing comes of it. The main
statement is `Turns.depthFirst`: the search discovers the same nodes in the same order, and its
back edges are the same but for the one that was turned.
-/

namespace FlowBubbles

namespace DepthFirst

variable {a a' : Adjacency} {p : Option Nat} {w : Nat} {ws : List Nat} {m m₁ m₂ m' : Nat → Mark}
  {es es₁ es₂ : List Event} {u v : Nat} {e : Edge}

/-- A scan depends on the edges out of the nodes that it discovers, and on no others. -/
theorem Scan.congr (h : Scan a p ws m es m') (hsame : ∀ x ∈ discovered es, a'.succ x = a.succ x) :
    Scan a' p ws m es m' := by
  induction h with
  | nil => exact .nil
  | enter hw _ _ ihbelow ihrest =>
    simp only [discovered_enter, List.mem_cons, List.mem_append] at hsame
    have hbelow := ihbelow fun x hx => hsame x (.inr (.inl hx))
    rw [← hsame _ (.inl rfl)] at hbelow
    exact .enter hw hbelow (ihrest fun x hx => hsame x (.inr (.inr hx)))
  | skip hw _ ih => exact .skip hw (ih (by simpa using hsame))

/-! ## Scans that miss a back edge -/

/-- There is a scan that tells what `es` tells about discovered nodes and back edges, except that
the first back edge `e` is missing. -/
def ScanWithout (a : Adjacency) (p : Option Nat) (ws : List Nat) (m : Nat → Mark)
    (es : List Event) (m' : Nat → Mark) (e : Edge) : Prop :=
  ∃ es', Scan a p ws m es' m' ∧ discovered es' = discovered es ∧
    backEdges es' = (backEdges es).erase e

theorem ScanWithout.enter_below (hw : m w = .fresh)
    (hbelow : ScanWithout a (some w) (a.succ w) (Function.update m w .active) es₁ m₁ e)
    (hrest : Scan a p ws (Function.update m₁ w .done) es₂ m₂) (he : e ∈ backEdges es₁) :
    ScanWithout a p (w :: ws) m (.discover w :: (es₁ ++ .finish w p :: es₂)) m₂ e := by
  obtain ⟨es', hscan, hdisc, hback⟩ := hbelow
  refine ⟨_, .enter hw hscan hrest, by simp [hdisc], ?_⟩
  rw [backEdges_enter, backEdges_enter, hback, List.erase_append_left _ he]

theorem ScanWithout.enter_rest (hw : m w = .fresh)
    (hbelow : Scan a (some w) (a.succ w) (Function.update m w .active) es₁ m₁)
    (hrest : ScanWithout a p ws (Function.update m₁ w .done) es₂ m₂ e) (he : e ∉ backEdges es₁) :
    ScanWithout a p (w :: ws) m (.discover w :: (es₁ ++ .finish w p :: es₂)) m₂ e := by
  obtain ⟨es', hscan, hdisc, hback⟩ := hrest
  refine ⟨_, .enter hw hbelow hscan, by simp [hdisc], ?_⟩
  rw [backEdges_enter, backEdges_enter, hback, List.erase_append_right _ he]

theorem ScanWithout.skip (hw : m w ≠ .fresh) (hrest : ScanWithout a p ws m es m' e)
    (he : e ∉ backEdges (revisits p w (m w))) :
    ScanWithout a p (w :: ws) m (revisits p w (m w) ++ es) m' e := by
  obtain ⟨es', hscan, hdisc, hback⟩ := hrest
  refine ⟨_, .skip hw hscan, by simp [hdisc], ?_⟩
  rw [backEdges_append, backEdges_append, hback, List.erase_append_right _ he]

/-- A finished node at the end of the list changes nothing. -/
theorem ScanWithout.snoc (h : ScanWithout a p ws m es m' e) (hw : m' w = .done) :
    ScanWithout a p (ws ++ [w]) m es m' e := by
  obtain ⟨es', hscan, hdisc, hback⟩ := h
  refine ⟨_, hscan.append (.skip (by simp [hw]) .nil), by simp [hdisc], ?_⟩
  rw [backEdges_append, backEdges_append, backEdges_revisits_of_ne (by simp [hw]), hback]
  simp

/-- Without the first edge out of the end `u` of the path to the node `v` of the path, the first of
these back edges is missing. -/
theorem Scan.erase (h : Scan a p ws m es m') (hp : p = some u) (hu : m u ≠ .fresh)
    (hv : m v = .active) (hmem : v ∈ ws) (hne : u ≠ v)
    (hsame : ∀ x ∈ discovered es, a'.succ x = a.succ x) :
    ScanWithout a' p (ws.erase v) m es m' ⟨u, v⟩ := by
  induction h with
  | nil => simp at hmem
  | @enter p w ws m m₁ m₂ es₁ es₂ hw hbelow hrest _ ihrest =>
    have hwu : w ≠ u := fun h => hu (h ▸ hw)
    have hwv : w ≠ v := fun h => by simp [h, hv] at hw
    simp only [discovered_enter, List.mem_cons, List.mem_append] at hsame
    have hu₁ : m₁ u ≠ .fresh := hbelow.met_of_met (by rwa [Function.update_of_ne hwu.symm])
    have hv₁ : m₁ v = .active := by rwa [hbelow.active_iff, Function.update_of_ne hwv.symm]
    have hrest' := ihrest hp (by rwa [Function.update_of_ne hwu.symm])
      (by rwa [Function.update_of_ne hwv.symm]) ((List.mem_cons.1 hmem).resolve_left hwv.symm)
      fun x hx => hsame x (.inr (.inr hx))
    have hbelow' : Scan a' (some w) (a.succ w) (Function.update m w .active) es₁ m₁ :=
      hbelow.congr fun x hx => hsame x (.inr (.inl hx))
    rw [← hsame w (.inl rfl)] at hbelow'
    -- below `w` the node `u` is neither discovered nor the end of the path
    have hnot : ⟨u, v⟩ ∉ backEdges es₁ := by
      intro he
      obtain ⟨-, ⟨hp, -, -⟩ | ⟨hdisc, -, -⟩⟩ := hbelow.of_mem_backEdges he
      · exact hwu (Option.some.inj hp)
      · exact hbelow.not_mem_discovered (by rwa [Function.update_of_ne hwu.symm]) hdisc
    rw [List.erase_cons_tail (by simpa using hwv)]
    exact .enter_rest hw hbelow' hrest' hnot
  | @skip p w ws m m' es hw hrest ih =>
    by_cases hwv : w = v
    · subst hwv hp
      rw [List.erase_cons_head]
      refine ⟨es, hrest.congr (by simpa using hsame), by simp, ?_⟩
      simp [revisits, backEdges, hv, Event.backEdge?, hne.symm]
    · rw [List.erase_cons_tail (by simpa using hwv)]
      exact .skip hw (ih hp hu hv ((List.mem_cons.1 hmem).resolve_left (Ne.symm hwv))
        (by simpa using hsame)) (by simp [hwv])

/-! ## One turned edge -/

/-- `a'` is `a` with the first edge from `u` to `v` turned around and put at the end. -/
structure Turns (a a' : Adjacency) (u v : Nat) : Prop where
  size_eq : a'.size = a.size
  succ_source : a'.succ u = (a.succ u).erase v
  succ_target : a'.succ v = a.succ v ++ [u]
  succ_other : ∀ x, x ≠ u → x ≠ v → a'.succ x = a.succ x

/-- Edges are the same out of nodes that are not ends of the turned edge. -/
theorem Turns.succ_eq (t : Turns a a' u v) (hu : u ∉ discovered es) (hv : v ∉ discovered es) :
    ∀ x ∈ discovered es, a'.succ x = a.succ x :=
  fun x hx => t.succ_other x (fun h => hu (h ▸ hx)) fun h => hv (h ▸ hx)

section

variable (t : Turns a a' u v)

include t

/-- The back edge is met among the edges out of the node that is entered. -/
theorem Turns.enter_source (hp : p ≠ some u) (hu : m u = .fresh) (hne : u ≠ v)
    (hbelow : Scan a (some u) (a.succ u) (Function.update m u .active) es₁ m₁)
    (hrest : Scan a p ws (Function.update m₁ u .done) es₂ m₂)
    (he : ⟨u, v⟩ ∈ backEdges es₁ ∨ ⟨u, v⟩ ∈ backEdges es₂) :
    ScanWithout a' p (u :: ws) m (.discover u :: (es₁ ++ .finish u p :: es₂)) m₂ ⟨u, v⟩ := by
  have hu₁ : u ∉ discovered es₁ := hbelow.not_mem_discovered (by simp)
  have hu₂ : u ∉ discovered es₂ := hrest.not_mem_discovered (by simp)
  have he₁ : ⟨u, v⟩ ∈ backEdges es₁ :=
    he.resolve_right fun he => hu₂ (hrest.source_mem_discovered he hp)
  obtain ⟨-, ⟨-, hv, hmem⟩ | ⟨hdisc, -, -⟩⟩ := hbelow.of_mem_backEdges he₁
  · -- `v` lies on the path, so that nobody discovers it below or after `u`
    have hv₁ : v ∉ discovered es₁ := hbelow.not_mem_discovered (by simp [hv])
    have hv₂ : v ∉ discovered es₂ := hrest.not_mem_discovered (by
      rw [Function.update_of_ne hne.symm]
      exact hbelow.target_met he₁)
    have hbelow' := hbelow.erase rfl (by simp) hv hmem hne (t.succ_eq hu₁ hv₁)
    rw [← t.succ_source] at hbelow'
    exact .enter_below hu hbelow' (hrest.congr (t.succ_eq hu₂ hv₂)) he₁
  · exact absurd hdisc hu₁

/-- The back edge is met below its target. Turned around it is the last edge out of the target. -/
theorem Turns.enter_target (hv : m v = .fresh) (hne : u ≠ v)
    (hbelow : Scan a (some v) (a.succ v) (Function.update m v .active) es₁ m₁)
    (hbelow' : ⟨u, v⟩ ∈ backEdges es₁ →
      ScanWithout a' (some v) (a.succ v) (Function.update m v .active) es₁ m₁ ⟨u, v⟩)
    (hrest : Scan a p ws (Function.update m₁ v .done) es₂ m₂)
    (he : ⟨u, v⟩ ∈ backEdges es₁ ∨ ⟨u, v⟩ ∈ backEdges es₂) :
    ScanWithout a' p (v :: ws) m (.discover v :: (es₁ ++ .finish v p :: es₂)) m₂ ⟨u, v⟩ := by
  have he₁ : ⟨u, v⟩ ∈ backEdges es₁ :=
    he.resolve_right fun he => hrest.target_ne_done he (by simp)
  -- by the time the flipped edge is followed, `u` is finished
  have hu₁ := hbelow.mem_discovered.1 (hbelow.source_mem_discovered he₁ (by simpa using hne.symm))
  have hdone := hbelow.done_of_fresh hu₁.1 hu₁.2
  have hsnoc := (hbelow' he₁).snoc hdone
  rw [← t.succ_target] at hsnoc
  refine .enter_below hv hsnoc (hrest.congr (t.succ_eq ?_ ?_)) he₁
  · exact hrest.not_mem_discovered (by simp [Function.update_of_ne hne, hdone])
  · exact hrest.not_mem_discovered (by simp)

/-- The back edge is met below a node that is none of its ends. -/
theorem Turns.enter_below (hw : m w = .fresh) (hwu : w ≠ u) (hwv : w ≠ v)
    (hbelow : Scan a (some w) (a.succ w) (Function.update m w .active) es₁ m₁)
    (hbelow' : ScanWithout a' (some w) (a.succ w) (Function.update m w .active) es₁ m₁ ⟨u, v⟩)
    (hrest : Scan a p ws (Function.update m₁ w .done) es₂ m₂) (he : ⟨u, v⟩ ∈ backEdges es₁) :
    ScanWithout a' p (w :: ws) m (.discover w :: (es₁ ++ .finish w p :: es₂)) m₂ ⟨u, v⟩ := by
  have hu₁ := hbelow.mem_discovered.1 (hbelow.source_mem_discovered he (by simpa using hwu))
  rw [← t.succ_other w hwu hwv] at hbelow'
  refine .enter_below hw hbelow' (hrest.congr (t.succ_eq ?_ ?_)) he
  · refine hrest.not_mem_discovered ?_
    rw [Function.update_of_ne hwu.symm]
    exact hu₁.2
  · refine hrest.not_mem_discovered ?_
    rw [Function.update_of_ne hwv.symm]
    exact hbelow.target_met he

/-- The back edge is met after a node that is none of its ends is finished. -/
theorem Turns.enter_rest (hp : p ≠ some u) (hw : m w = .fresh) (hwu : w ≠ u) (hwv : w ≠ v)
    (hbelow : Scan a (some w) (a.succ w) (Function.update m w .active) es₁ m₁)
    (hrest : Scan a p ws (Function.update m₁ w .done) es₂ m₂)
    (hrest' : m₁ u = .fresh → ScanWithout a' p ws (Function.update m₁ w .done) es₂ m₂ ⟨u, v⟩)
    (he₁ : ⟨u, v⟩ ∉ backEdges es₁) (he₂ : ⟨u, v⟩ ∈ backEdges es₂) :
    ScanWithout a' p (w :: ws) m (.discover w :: (es₁ ++ .finish w p :: es₂)) m₂ ⟨u, v⟩ := by
  have hu₂ := (hrest.mem_discovered.1 (hrest.source_mem_discovered he₂ hp)).1
  have hv₂ := hrest.target_ne_done he₂
  rw [Function.update_of_ne hwu.symm] at hu₂
  rw [Function.update_of_ne hwv.symm] at hv₂
  have hu₁ : u ∉ discovered es₁ := fun h => (hbelow.mem_discovered.1 h).2 hu₂
  have hv₁ : v ∉ discovered es₁ := fun h =>
    hv₂ (hbelow.done_of_fresh (hbelow.mem_discovered.1 h).1 (hbelow.mem_discovered.1 h).2)
  have hbelow' := hbelow.congr (t.succ_eq hu₁ hv₁)
  rw [← t.succ_other w hwu hwv] at hbelow'
  exact .enter_rest hw hbelow' (hrest' hu₂) he₁

/-- A scan that meets both ends of a turned back edge tells the same, without that edge. -/
theorem Turns.scan (h : Scan a p ws m es m') (hp : p ≠ some u) (hu : m u = .fresh)
    (he : ⟨u, v⟩ ∈ backEdges es) : ScanWithout a' p ws m es m' ⟨u, v⟩ := by
  induction h with
  | nil => simp at he
  | @enter p w ws m m₁ m₂ es₁ es₂ hw hbelow hrest ihbelow ihrest =>
    have hne : u ≠ v := ((Scan.enter hw hbelow hrest).of_mem_backEdges he).1
    rw [backEdges_enter, List.mem_append] at he
    by_cases hwu : w = u
    · subst hwu
      exact t.enter_source hp hu hne hbelow hrest he
    have hu₀ : Function.update m w .active u = .fresh := by
      rwa [Function.update_of_ne (Ne.symm hwu)]
    have hbelow' := ihbelow (by simpa using hwu) hu₀
    by_cases hwv : w = v
    · subst hwv
      exact t.enter_target hw hne hbelow hbelow' hrest he
    by_cases he₁ : ⟨u, v⟩ ∈ backEdges es₁
    · exact t.enter_below hw hwu hwv hbelow (hbelow' he₁) hrest he₁
    · have he₂ := he.resolve_left he₁
      refine t.enter_rest hp hw hwu hwv hbelow hrest (fun hu₂ => ihrest hp ?_ he₂) he₁ he₂
      rwa [Function.update_of_ne (Ne.symm hwu)]
  | @skip p w ws m m' es hw hrest ih =>
    -- an edge that is told here leaves the end of the path, which is not `u`
    have hnot : ⟨u, v⟩ ∉ backEdges (revisits p w (m w)) := by simp [hp]
    rw [backEdges_append, List.mem_append] at he
    exact .skip hw (ih hp hu (he.resolve_left hnot)) hnot

end

/-- Turning a back edge around changes nothing about what is discovered, and takes the first copy of
that edge out of the list of back edges. -/
theorem Turns.depthFirst (t : Turns a a' u v) (he : ⟨u, v⟩ ∈ backEdges a.depthFirst) :
    discovered a'.depthFirst = discovered a.depthFirst ∧
      backEdges a'.depthFirst = (backEdges a.depthFirst).erase ⟨u, v⟩ := by
  obtain ⟨m, hscan⟩ := a.scan_depthFirst
  obtain ⟨m', hscan'⟩ := a'.scan_depthFirst
  obtain ⟨es, hwithout, hdisc, hback⟩ := t.scan hscan (by simp) rfl he
  have hnodes : a'.nodes = a.nodes := by rw [Adjacency.nodes, Adjacency.nodes, t.size_eq]
  rw [hnodes] at hscan'
  obtain ⟨hes, -⟩ := hscan'.unique hwithout
  rw [hes]
  exact ⟨hdisc, hback⟩

end DepthFirst

end FlowBubbles
