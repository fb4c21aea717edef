import FlowBubbles.Proofs.Checked.Storage
import FlowBubbles.Proofs.StrongComponents.Components

/-!
# The checked depth-first search

All rows of the graph are read first, then the search follows them. The nodes of its path, the
targets of the edges that it still has to follow, and the start nodes are nodes of the graph
(`Search.InRange`), so the checked search tells what the search tells (`depthFirst?_eq_some`), and
the components are gathered from nodes of the graph only (`strongComponents?_eq_some`).
-/

namespace FlowBubbles

open DepthFirst

/-! ## Nodes of the graph -/

namespace DepthFirst

variable {a : Adjacency} {s : Search} {v : Nat}

/-- Whether all nodes that a search has on its path or in front of it are nodes of the graph. -/
structure Search.InRange (a : Adjacency) (s : Search) : Prop where
  path : ∀ p ∈ s.path, p.1 < a.size ∧ ∀ w ∈ p.2, w < a.size
  roots : ∀ v ∈ s.roots, v < a.size

theorem Search.InRange.enter (h : s.InRange a) (hv : v < a.size) : (s.enter a v).InRange a where
  path p hp := by
    rcases List.mem_cons.1 hp with rfl | hp
    · exact ⟨hv, fun w hw => (a.lt_of_mem_succ hw).2⟩
    · exact h.path p hp
  roots := h.roots

theorem Search.InRange.next (h : s.InRange a) : (s.next a).InRange a := by
  obtain ⟨mark, path, roots, events⟩ := s
  unfold Search.next
  split
  · -- an edge is followed
    rename_i v w rest path heq
    obtain rfl : _ = (v, w :: rest) :: path := heq
    obtain ⟨hp, hpath⟩ := List.forall_mem_cons.1 h.path
    have hrest : Search.InRange a ⟨mark, (v, rest) :: path, roots, events⟩ :=
      ⟨List.forall_mem_cons.2 ⟨⟨hp.1, fun x hx => hp.2 x (List.mem_cons_of_mem _ hx)⟩, hpath⟩,
        h.roots⟩
    simp only
    split
    · exact hrest.enter (hp.2 w List.mem_cons_self)
    · exact ⟨hrest.path, hrest.roots⟩
    · exact ⟨hrest.path, hrest.roots⟩
  · -- a node is left
    rename_i v path heq
    obtain rfl : _ = (v, []) :: path := heq
    exact ⟨fun p hp => h.path p (List.mem_cons_of_mem _ hp), h.roots⟩
  · split
    · exact h
    · rename_i v roots heq
      obtain rfl : _ = v :: roots := heq
      obtain ⟨hv, hroots⟩ := List.forall_mem_cons.1 h.roots
      have hrest : Search.InRange a ⟨mark, path, roots, events⟩ := ⟨h.path, hroots⟩
      simp only
      split
      · exact hrest.enter hv
      · exact hrest

theorem Search.inRange_start (a : Adjacency) : (Search.start a).InRange a where
  path p hp := by cases hp
  roots _ hv := Adjacency.mem_nodes.1 hv

end DepthFirst

namespace Checked

/-! ## The search -/

/-- The state of a checked search. -/
structure Search where
  mark : Table Mark
  path : List (Nat × List Nat)
  roots : List Nat
  events : Array Event

namespace Search

/-- Meets a node: it becomes the end of the path, with its row. -/
def enter? (rows : List (List Nat)) (s : Search) (v : Nat) : Option Search := do
  let mark ← s.mark.set? v .active
  let row ← rows[v]?
  return ⟨mark, (v, row) :: s.path, s.roots, s.events.push (.discover v)⟩

/-- Whether there is nothing left to do. -/
def halted (s : Search) : Bool := s.path.isEmpty && s.roots.isEmpty

/-- Does the next thing: follows an edge, leaves a node, or looks at a start node. -/
def next? (rows : List (List Nat)) (s : Search) : Option Search :=
  match s.path with
  | (v, w :: rest) :: path => do
    let s : Search := ⟨s.mark, (v, rest) :: path, s.roots, s.events⟩
    match ← s.mark.get? w with
    | .fresh => s.enter? rows w
    | .active => return ⟨s.mark, s.path, s.roots, s.events.push (.revisit v w true)⟩
    | .done => return ⟨s.mark, s.path, s.roots, s.events.push (.revisit v w false)⟩
  | (v, []) :: path => do
    let mark ← s.mark.set? v .done
    return ⟨mark, path, s.roots, s.events.push (.finish v (path.head?.map Prod.fst))⟩
  | [] =>
    match s.roots with
    | [] => some s
    | v :: roots => do
      let s : Search := ⟨s.mark, s.path, roots, s.events⟩
      match ← s.mark.get? v with
      | .fresh => s.enter? rows v
      | _ => return s

/-- The state of a search with its marks in a table of `n` cells. -/
def tabled (n : Nat) (s : DepthFirst.Search) : Search := ⟨⟨n, s.mark⟩, s.path, s.roots, s.events⟩

end Search

/-- The events of the checked search of a whole graph. -/
noncomputable def depthFirst? (w : View) : Option (List Event) := do
  let nodes := List.range w.size
  let rows ← nodes.mapM w.succ
  let s ← loop Search.halted (Search.next? rows) ⟨.replicate w.size .fresh, [], nodes, #[]⟩
  return s.events.toList

section

variable {a : Adjacency} {w : View} {s : DepthFirst.Search} {v : Nat}

theorem rows_getElem? (hv : v < a.size) : (a.nodes.map a.succ)[v]? = some (a.succ v) := by
  simp [Adjacency.nodes, hv]

theorem enter?_eq_some (hv : v < a.size) :
    (Search.tabled a.size s).enter? (a.nodes.map a.succ) v =
      some (.tabled a.size (s.enter a v)) := by
  rw [Search.enter?, rows_getElem? hv, Search.tabled, Table.set?_of_lt hv]
  rfl

/-- Every read and write of a step is in range. -/
theorem next?_eq_some (h : s.InRange a) :
    (Search.tabled a.size s).next? (a.nodes.map a.succ) = some (.tabled a.size (s.next a)) := by
  have hread : ∀ {v}, v < a.size →
      (⟨a.size, s.mark⟩ : Table Mark).get? v = some (s.mark.get v) := fun hv => Table.get?_of_lt hv
  obtain ⟨mark, path, roots, events⟩ := s
  match path, roots with
  | (v, w :: rest) :: path, roots =>
    have hw : w < a.size := (h.path _ List.mem_cons_self).2 w List.mem_cons_self
    simp only [Search.next?, Search.tabled, hread hw, DepthFirst.Search.next]
    cases mark.get w with
    | fresh => exact enter?_eq_some (s := ⟨mark, (v, rest) :: path, roots, events⟩) hw
    | active => rfl
    | done => rfl
  | (v, []) :: path, roots =>
    have hv : v < a.size := (h.path _ List.mem_cons_self).1
    have hwrite := Table.set?_of_lt (m := mark) hv .done
    simp only [Search.next?, Search.tabled, hwrite, DepthFirst.Search.next]
    rfl
  | [], v :: roots =>
    have hv : v < a.size := h.roots v List.mem_cons_self
    simp only [Search.next?, Search.tabled, hread hv, DepthFirst.Search.next]
    cases mark.get v with
    | fresh => exact enter?_eq_some (s := ⟨mark, [], roots, events⟩) hv
    | active => rfl
    | done => rfl
  | [], [] => rfl

theorem depthFirst?_eq_some (h : w.Shows a) : depthFirst? w = some a.depthFirst := by
  have hrows : (List.range a.size).mapM w.succ = some (a.nodes.map a.succ) :=
    mapM_eq_some fun v hv => h.succ v (List.mem_range.1 hv)
  have hhalted : ∀ s, (Search.tabled a.size s).halted = s.halted := fun _ => rfl
  have hloop := loop_eq_some hhalted (fun _ _ hs => next?_eq_some hs) (fun _ _ hs => hs.next)
    (stepBound a) (DepthFirst.Search.start a) (DepthFirst.Search.inRange_start a)
    (halted_depthFirst a)
  have hstart : (⟨.replicate a.size .fresh, [], List.range a.size, #[]⟩ : Search) =
      .tabled a.size (DepthFirst.Search.start a) := rfl
  simp only [depthFirst?, h.size, hrows, Option.bind_eq_bind, Option.bind_some, hstart, hloop]
  rfl

end

end Checked

end FlowBubbles
