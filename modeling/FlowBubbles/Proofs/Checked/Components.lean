import FlowBubbles.Proofs.Checked.Search
import FlowBubbles.Proofs.Dag.Choice

/-!
# Checked components and the edges of a pass

The components are gathered from the nodes that the search tells of, all of which are nodes of the
graph. The best back edge of each component is kept in a table with a cell for each component. A
component of one node has no back edge, so its cell stays empty, and the cells hold the edges that
are chosen (`chosen?_eq_some`).
-/

namespace FlowBubbles

open DepthFirst

/-! ## What a report tells of -/

namespace DepthFirst

variable {a : Adjacency} {p : Option Nat} {ws : List Nat} {m m' : Nat → Mark} {es : List Event}

/-- The nodes that an event tells of. -/
def Event.nodes : Event → List Nat
  | discover v => [v]
  | revisit v w _ => [v, w]
  | finish v parent => v :: parent.toList

/-- A scan tells of nodes of the graph only. -/
theorem Scan.nodes_lt (h : Scan a p ws m es m') (hp : ∀ v ∈ p, v < a.size)
    (hws : ∀ w ∈ ws, w < a.size) : ∀ e ∈ es, ∀ x ∈ e.nodes, x < a.size := by
  induction h with
  | nil => simp
  | @enter p w ws m m₁ m₂ es₁ es₂ _ _ _ ihbelow ihrest =>
    obtain ⟨hw, hrest⟩ := List.forall_mem_cons.1 hws
    have hbelow := ihbelow (by simpa using hw) fun x hx => (a.lt_of_mem_succ hx).2
    simp only [List.forall_mem_cons, List.forall_mem_append]
    refine ⟨by simpa [Event.nodes] using hw, hbelow, ?_, ihrest hp hrest⟩
    simpa [Event.nodes, hw] using hp
  | @skip p w ws m m' es _ _ ih =>
    obtain ⟨hw, hrest⟩ := List.forall_mem_cons.1 hws
    refine List.forall_mem_append.2 ⟨?_, ih hp hrest⟩
    cases p with
    | none => simp [revisits]
    | some v => simpa [revisits, Event.nodes, hw] using hp

theorem nodes_lt_depthFirst (a : Adjacency) : ∀ e ∈ a.depthFirst, ∀ x ∈ e.nodes, x < a.size := by
  obtain ⟨m, hscan⟩ := a.scan_depthFirst
  exact hscan.nodes_lt (by simp) fun w hw => Adjacency.mem_nodes.1 hw

end DepthFirst

namespace Checked

variable {a : Adjacency} {w : View}

/-! ## Gathering components -/

/-- The state of a checked gathering. -/
structure Gathering where
  low : Table Nat
  stack : List Nat
  stacked : Table Bool
  components : Array (List Nat)

namespace Gathering

/-- Lowers the low point of a node to at most `n`. -/
def lower? (s : Gathering) (v n : Nat) : Option Gathering := do
  let low ← s.low.set? v (min (← s.low.get? v) n)
  return ⟨low, s.stack, s.stacked, s.components⟩

/-- Closes the component of `v`. -/
def close? (s : Gathering) (v : Nat) : Option Gathering := do
  let component := s.stack.takeWhile (· != v) ++ [v]
  let stacked ← component.foldlM (fun t w => t.set? w false) s.stacked
  return ⟨s.low, (s.stack.dropWhile (· != v)).drop 1, stacked, s.components.push component⟩

/-- Lowers the low point of the parent of a finished node. -/
def passUp? (s : Gathering) (low : Nat) : Option Nat → Option Gathering
  | none => some s
  | some p => s.lower? p low

/-- Takes one event into account. -/
def read? (discovery : Table Nat) (s : Gathering) : Event → Option Gathering
  | .discover v => do
    let low ← s.low.set? v (← discovery.get? v)
    let stacked ← s.stacked.set? v true
    return ⟨low, v :: s.stack, stacked, s.components⟩
  | .revisit v w _ => do
    if ← s.stacked.get? w then s.lower? v (← discovery.get? w) else return s
  | .finish v parent => do
    let low ← s.low.get? v
    let s ← s.passUp? low parent
    if low = (← discovery.get? v) then s.close? v else return s

/-- The state of a gathering with its tables of `n` cells. -/
def tabled (n : Nat) (s : StrongComponents.Gathering) : Gathering :=
  ⟨⟨n, s.low⟩, s.stack, ⟨n, s.stacked⟩, s.components⟩

variable {s : StrongComponents.Gathering} {n v : Nat}

theorem lower?_eq_some (hv : v < n) (k : Nat) :
    (tabled n s).lower? v k = some (tabled n (s.lower v k)) := by
  have hread : (tabled n s).low.get? v = some (s.low.get v) := Table.get?_of_lt hv
  have hwrite : ∀ k, (tabled n s).low.set? v k = some ⟨n, s.low.set v k⟩ := Table.set?_of_lt hv
  simp only [lower?, hread, hwrite, Option.bind_eq_bind, Option.bind_some]
  rfl

theorem close?_eq_some (hv : v < n) (hstack : ∀ x ∈ s.stack, x < n) :
    (tabled n s).close? v = some (tabled n (s.close v)) := by
  have hcomponent : ∀ x ∈ s.stack.takeWhile (· != v) ++ [v], x < n := by
    intro x hx
    rcases List.mem_append.1 hx with hx | hx
    · exact hstack x ((List.takeWhile_sublist _).subset hx)
    · exact List.mem_singleton.1 hx ▸ hv
  have hstacked := Table.foldlM_set? hcomponent false s.stacked
  simp only [close?, tabled, hstacked, Option.bind_eq_bind, Option.bind_some]
  rfl

/-- Every read and write for an event is in range, and only nodes of the graph are on the stack. -/
theorem read?_eq_some {disc : NodeMap Nat} {e : Event} (he : ∀ x ∈ e.nodes, x < n)
    (hstack : ∀ x ∈ s.stack, x < n) :
    (tabled n s).read? ⟨n, disc⟩ e = some (tabled n (s.read disc e)) ∧
      ∀ x ∈ (s.read disc e).stack, x < n := by
  have hdisc : ∀ {v}, v < n → (⟨n, disc⟩ : Table Nat).get? v = some (disc.get v) := fun hv =>
    Table.get?_of_lt hv
  cases e with
  | discover v =>
    have hv : v < n := he v (by simp [Event.nodes])
    have hlow : ∀ k, (tabled n s).low.set? v k = some ⟨n, s.low.set v k⟩ := Table.set?_of_lt hv
    have hstacked : ∀ b, (tabled n s).stacked.set? v b = some ⟨n, s.stacked.set v b⟩ :=
      Table.set?_of_lt hv
    refine ⟨?_, List.forall_mem_cons.2 ⟨hv, hstack⟩⟩
    simp only [read?, hdisc hv, hlow, hstacked, Option.bind_eq_bind, Option.bind_some]
    rfl
  | revisit v w active =>
    have hv : v < n := he v (by simp [Event.nodes])
    have hw : w < n := he w (by simp [Event.nodes])
    have hstacked : (tabled n s).stacked.get? w = some (s.stacked.get w) := Table.get?_of_lt hw
    simp only [read?, hdisc hw, hstacked, Option.bind_eq_bind, Option.bind_some,
      StrongComponents.Gathering.read]
    split
    · exact ⟨lower?_eq_some hv _, hstack⟩
    · exact ⟨rfl, hstack⟩
  | finish v parent =>
    have hv : v < n := he v (by simp [Event.nodes])
    have hlow : (tabled n s).low.get? v = some (s.low.get v) := Table.get?_of_lt hv
    have hpass : (tabled n s).passUp? (s.low.get v) parent =
        some (tabled n (s.passUp v parent)) := by
      cases parent with
      | none => rfl
      | some p => exact lower?_eq_some (he p (by simp [Event.nodes])) _
    have hpassed : ∀ x ∈ (s.passUp v parent).stack, x < n := by
      rwa [StrongComponents.Gathering.stack_passUp]
    simp only [read?, hlow, hdisc hv, Option.bind_eq_bind, Option.bind_some, hpass,
      StrongComponents.Gathering.read_finish]
    split
    · refine ⟨close?_eq_some hv hpassed, fun x hx => hpassed x ?_⟩
      exact (List.dropWhile_sublist _).subset (List.mem_of_mem_drop hx)
    · exact ⟨rfl, hpassed⟩

end Gathering

/-- The result of a checked gathering. -/
structure Components where
  components : List (List Nat)
  discovery : Table Nat
  backEdges : List Edge

namespace Components

/-- The components of `n` nodes with the discovery indices in a table. -/
def tabled (n : Nat) (s : StrongComponents) : Components :=
  ⟨s.components, ⟨n, s.discovery⟩, s.backEdges⟩

/-- For each node, the position of its component in the list of components. -/
def componentOf? (s : Components) : Option (Table Nat) :=
  s.components.zipIdx.foldlM (fun t (component, i) => component.foldlM (fun t v => t.set? v i) t)
    (.replicate s.discovery.size 0)

/-- The sum of the discovery indices of the ends of an edge. -/
def depth? (s : Components) (e : Edge) : Option Nat := do
  return (← s.discovery.get? e.source) + (← s.discovery.get? e.target)

/-- Whether `e` is chosen before `f`. -/
def prefers? (s : Components) (e f : Edge) : Option Bool := do
  let depth ← s.depth? e
  let depth' ← s.depth? f
  return depth' < depth ||
    depth == depth' && (e.source < f.source || e.source == f.source && e.target < f.target)

/-- Puts a back edge into the cell of its component, if it is chosen before the one that is there. -/
def keep? (s : Components) (home : Table Nat) (best : Table (Option Edge)) (e : Edge) :
    Option (Table (Option Edge)) := do
  let i ← home.get? e.source
  match ← best.get? i with
  | none => best.set? i (some e)
  | some f => if ← s.prefers? e f then best.set? i (some e) else return best

/-- The back edges to turn around in one pass. -/
def chosen? (s : Components) : Option (List Edge) := do
  let home ← s.componentOf?
  let best ← s.backEdges.foldlM (s.keep? home) (.replicate s.components.length none)
  return (best.cells.row best.size).filterMap id

end Components

/-- The strongly connected components of a graph. -/
noncomputable def strongComponents? (w : View) : Option Components := do
  let events ← depthFirst? w
  let discovery ← (Table.replicate w.size 0).number? (events.filterMap Event.discovered?)
  let gathered ← events.foldlM (Gathering.read? discovery)
    ⟨.replicate w.size 0, [], .replicate w.size false, #[]⟩
  return ⟨gathered.components.toList, discovery, events.filterMap Event.backEdge?⟩

theorem strongComponents?_eq_some (h : w.Shows a) :
    strongComponents? w = some (.tabled a.size a.strongComponents) := by
  have hnumber : (Table.replicate a.size 0).number? (a.depthFirst.filterMap Event.discovered?) =
      some ⟨a.size, a.strongComponents.discovery⟩ :=
    Table.number?_replicate (fun v hv =>
      Adjacency.mem_nodes.1 ((perm_discovered_depthFirst a).mem_iff.1 hv)) 0
  have hgather := (foldlM_eq_some (e := Gathering.tabled a.size)
    (P := fun rest s => (∀ e ∈ rest, ∀ x ∈ e.nodes, x < a.size) ∧ ∀ x ∈ s.stack, x < a.size)
    (f := Gathering.read? ⟨a.size, a.strongComponents.discovery⟩)
    (g := StrongComponents.Gathering.read a.strongComponents.discovery)
    (fun e rest s hs => by
      obtain ⟨he, hrest⟩ := List.forall_mem_cons.1 hs.1
      obtain ⟨hread, hstack⟩ := Gathering.read?_eq_some he hs.2
      exact ⟨hread, hrest, hstack⟩)
    a.depthFirst .start ⟨nodes_lt_depthFirst a, by simp [StrongComponents.Gathering.start]⟩).1
  have hstart : (⟨.replicate a.size 0, [], .replicate a.size false, #[]⟩ : Gathering) =
      .tabled a.size .start := rfl
  simp only [strongComponents?, depthFirst?_eq_some h, h.size, hnumber, hstart, hgather,
    Option.bind_eq_bind, Option.bind_some]
  rfl

/-! ## Choosing the edges of a pass -/

namespace Components

theorem componentOf?_eq_some (a : Adjacency) :
    (tabled a.size a.strongComponents).componentOf? =
      some ⟨a.size, a.strongComponents.componentOf⟩ := by
  have hlt : ∀ p ∈ a.strongComponents.components.zipIdx, ∀ v ∈ p.1, v < a.size := by
    intro p hp v hv
    exact StrongComponents.mem_components_iff.1
      (List.mem_flatten_of_mem (List.fst_mem_of_mem_zipIdx hp) hv)
  exact (foldlM_eq_some (e := fun m : NodeMap Nat => (⟨a.size, m⟩ : Table Nat))
    (P := fun rest _ => ∀ p ∈ rest, ∀ v ∈ p.1, v < a.size)
    (fun p rest m hrest => by
      obtain ⟨hp, hrest⟩ := List.forall_mem_cons.1 hrest
      exact ⟨Table.foldlM_set? hp p.2 m, hrest⟩) _ (.const 0) hlt).1

variable {e f : Edge}

/-- The ends of a back edge are nodes of the graph. -/
theorem lt_of_mem_backEdges (he : e ∈ a.strongComponents.backEdges) :
    e.source < a.size ∧ e.target < a.size :=
  a.lt_of_mem_succ (of_mem_backEdges_depthFirst he).2.1

/-- The component of a node has a cell. -/
theorem componentOf_lt {v : Nat} (hv : v < a.size) :
    a.strongComponents.componentOf.get v < a.strongComponents.components.length := by
  obtain ⟨c, hc, hvc⟩ := List.mem_flatten.1 (StrongComponents.mem_components_iff.2 hv)
  obtain ⟨i, hi, rfl⟩ := List.getElem_of_mem hc
  rwa [StrongComponents.get_componentOf hi hvc]

theorem prefers?_eq_some (he : e ∈ a.strongComponents.backEdges)
    (hf : f ∈ a.strongComponents.backEdges) :
    (tabled a.size a.strongComponents).prefers? e f = some (a.strongComponents.prefers e f) := by
  have hdepth : ∀ {e}, e ∈ a.strongComponents.backEdges →
      (tabled a.size a.strongComponents).depth? e =
        some (a.strongComponents.discovery.get e.source +
          a.strongComponents.discovery.get e.target) := by
    intro e he
    obtain ⟨hsource, htarget⟩ := lt_of_mem_backEdges he
    have hread : ∀ {v}, v < a.size → (tabled a.size a.strongComponents).discovery.get? v =
        some (a.strongComponents.discovery.get v) := fun hv => Table.get?_of_lt hv
    simp only [depth?, hread hsource, hread htarget, Option.bind_eq_bind, Option.bind_some]
    rfl
  simp only [prefers?, hdepth he, hdepth hf, Option.bind_eq_bind, Option.bind_some]
  rfl

/-- The cells of the components, which hold back edges. -/
def cells (a : Adjacency) (best : NodeMap (Option Edge)) : Table (Option Edge) :=
  ⟨a.strongComponents.components.length, best⟩

theorem keep?_eq_some {best : NodeMap (Option Edge)} (he : e ∈ a.strongComponents.backEdges)
    (hbest : ∀ i, ∀ f ∈ best.get i, f ∈ a.strongComponents.backEdges) :
    (tabled a.size a.strongComponents).keep? ⟨a.size, a.strongComponents.componentOf⟩
      (cells a best) e = some (cells a (a.strongComponents.keep best e)) := by
  have hsource := (lt_of_mem_backEdges he).1
  have hi := componentOf_lt hsource
  have hhome : (⟨a.size, a.strongComponents.componentOf⟩ : Table Nat).get? e.source =
      some (a.strongComponents.componentOf.get e.source) := Table.get?_of_lt hsource
  have hread : (cells a best).get? (a.strongComponents.componentOf.get e.source) =
      some (best.get (a.strongComponents.componentOf.get e.source)) := Table.get?_of_lt hi
  have hwrite : (cells a best).set? (a.strongComponents.componentOf.get e.source) (some e) =
      some (cells a (best.set _ (some e))) := Table.set?_of_lt hi (some e)
  simp only [keep?, hhome, hread, Option.bind_eq_bind, Option.bind_some]
  unfold StrongComponents.keep
  cases hcell : best.get (a.strongComponents.componentOf.get e.source) with
  | none => exact hwrite
  | some f =>
    have hf : f ∈ a.strongComponents.backEdges := hbest _ f hcell
    simp only [prefers?_eq_some he hf, Option.bind_some]
    cases a.strongComponents.prefers e f with
    | true => exact hwrite
    | false => rfl

/-- The edges that are chosen are found without an access out of range. -/
theorem chosen?_eq_some (a : Adjacency) :
    (tabled a.size a.strongComponents).chosen? = some a.strongComponents.chosen := by
  have hfold := (foldlM_eq_some (e := cells a)
    (P := fun rest best => (∀ e ∈ rest, e ∈ a.strongComponents.backEdges) ∧
      ∀ i, ∀ f ∈ best.get i, f ∈ a.strongComponents.backEdges)
    (f := (tabled a.size a.strongComponents).keep? ⟨a.size, a.strongComponents.componentOf⟩)
    (fun e rest best hbest => by
      obtain ⟨he, hrest⟩ := List.forall_mem_cons.1 hbest.1
      refine ⟨keep?_eq_some he hbest.2, hrest, fun i f hf => ?_⟩
      rcases StrongComponents.eq_or_mem_of_mem_keep hf with rfl | hf
      · exact he
      · exact hbest.2 i f hf)
    a.strongComponents.backEdges (.const none) ⟨fun _ he => he, by simp⟩).1
  have hstart : Table.replicate (tabled a.size a.strongComponents).components.length none =
    cells a (.const none) := rfl
  have hedges : (tabled a.size a.strongComponents).backEdges = a.strongComponents.backEdges := rfl
  simp only [chosen?, componentOf?_eq_some, hstart, hedges, hfold, Option.bind_eq_bind,
    Option.bind_some]
  exact congrArg some (StrongComponents.chosen_eq_row a).symm

end Components

end Checked

end FlowBubbles
