import FlowBubbles.Proofs.Checked.Components
import FlowBubbles.Proofs.StrongComponents.Components

/-!
# Components by recursion

`Recursion.connect` finds strongly connected components by calling itself for each successor that
has no index yet. The path of the search is the path of calls, back edges and components are noted
as they are found, and the lowlink of a node is passed on when its call returns.

The search with a stack of its own does the same. A scan of the search nests as the calls do, and
the states of the recursion and of the gathering agree after each of its events
(`Recursion.Tracks`). So the calls nest no deeper than there are nodes (`Recursion.foldlM_step`), and
index, back edges and components of the recursion are those of the search
(`StrongComponents.eq_recursion`).
-/

namespace FlowBubbles

/-- What the calls have found so far. The stack holds the nodes whose component is not closed, and
`count` is the next index. -/
structure Recursion where
  index : NodeMap (Option Nat)
  low : NodeMap Nat
  stack : List Nat
  count : Nat
  components : List (List Nat)
  backEdges : List Edge

namespace Recursion

/-! ## The recursion -/

/-- The state before the first call. -/
def start : Recursion := ⟨.const none, .const 0, [], 0, [], []⟩

/-- Gives a node the next index, which is its lowlink as well, and puts it on the stack. -/
def discover (s : Recursion) (v : Nat) : Recursion :=
  { s with
    index := s.index.set v (some s.count)
    low := s.low.set v s.count
    stack := v :: s.stack
    count := s.count + 1 }

/-- Lowers the lowlink of a node to at most `n`. -/
def lower (s : Recursion) (v n : Nat) : Recursion :=
  { s with low := s.low.set v (min (s.low.get v) n) }

/-- Notes an edge from `v` to a node `w` with the index `i`. It is a back edge if `w` is another
node of the path of calls, and it lowers the lowlink of `v` if `w` is on the stack. -/
def revisit (s : Recursion) (path : List Nat) (v w i : Nat) : Recursion :=
  let edges := if w ∈ path ∧ w ≠ v then [⟨v, w⟩] else []
  let s := { s with backEdges := s.backEdges ++ edges }
  if w ∈ s.stack then s.lower v i else s

/-- Takes nodes off a stack until `v` is taken off. Gives these nodes and the rest of the stack. -/
def popTo (v : Nat) : List Nat → List Nat × List Nat
  | [] => ([], [])
  | w :: stack =>
    if w = v then ([w], stack)
    else
      let (component, rest) := popTo v stack
      (w :: component, rest)

/-- Closes the component of a node whose lowlink is its index. -/
def leave (s : Recursion) (v : Nat) : Recursion :=
  if s.index.get v = some (s.low.get v) then
    let (component, rest) := popTo v s.stack
    { s with
      stack := rest
      components := s.components ++ [component] }
  else s

/-- Deals with a node that has no index, to which the calls on the path lead: with its successors
one after the other, of which those without an index are dealt with by a call, and then with its
component. Calls that would nest more than `depth` deep give nothing. -/
def connect (a : Adjacency) : Nat → List Nat → Nat → Recursion → Option Recursion
  | 0, _, _, _ => none
  | depth + 1, path, v, s => do
    let path := v :: path
    let s ← (a.succ v).foldlM (fun s w =>
      match s.index.get w with
      | none => do
        let s ← connect a depth path w s
        return s.lower v (s.low.get w)
      | some i => return s.revisit path v w i) (s.discover v)
    return s.leave v

end Recursion

/-- Finds the components by recursion, from each node that has no index, in ascending order. -/
def Adjacency.recursion? (a : Adjacency) (depth : Nat) : Option Recursion :=
  a.nodes.foldlM (fun s v =>
    match s.index.get v with
    | none => Recursion.connect a depth [] v s
    | some _ => return s) .start

open DepthFirst StrongComponents

namespace Recursion

variable {a : Adjacency} {disc : NodeMap Nat} {m m₁ m' : Nat → Mark} {g : Gathering}
  {s s₁ : Recursion} {path ws : List Nat} {p : Option Nat} {depth i n v w : Nat}
  {es es₁ es₂ : List Event}

/-! ## One step of a call -/

/-- Passes the lowlink of a node on to its parent, if there is one. -/
def passUp (s : Recursion) (w : Nat) : Option Nat → Recursion
  | none => s
  | some v => s.lower v (s.low.get w)

/-- What a call at the end of the path does with a successor, and what is done with a start node if
there is no path. -/
def step (a : Adjacency) (depth : Nat) (path : List Nat) (s : Recursion) (w : Nat) :
    Option Recursion :=
  match s.index.get w, path with
  | none, path => (connect a depth path w s).map (·.passUp w path.head?)
  | some _, [] => some s
  | some i, v :: path => some (s.revisit (v :: path) v w i)

theorem connect_succ : connect a (depth + 1) path v s =
    ((a.succ v).foldlM (step a depth (v :: path)) (s.discover v)).map (·.leave v) := by
  have hstep : step a depth (v :: path) = fun s w =>
      match s.index.get w with
      | none => do
        let s ← connect a depth (v :: path) w s
        return s.lower v (s.low.get w)
      | some i => return s.revisit (v :: path) v w i := by
    funext s w
    rw [step.eq_def]
    cases s.index.get w with
    | none => exact Option.map_eq_bind ..
    | some i => rfl
  rw [connect, hstep]
  exact (Option.map_eq_bind ..).symm

theorem recursion?_eq : a.recursion? depth = a.nodes.foldlM (step a depth []) start := by
  have hstep : step a depth [] = fun s v =>
      match s.index.get v with
      | none => connect a depth [] v s
      | some _ => return s := by
    funext s v
    rw [step.eq_def]
    cases s.index.get v with
    | none => exact Option.map_id_apply
    | some i => rfl
  rw [hstep]
  rfl

/-! ## The depth of the calls -/

/-- The nodes that have not been met. -/
def unmet (a : Adjacency) (m : Nat → Mark) : Finset Nat :=
  (Finset.range a.size).filter (m · = .fresh)

theorem card_unmet_enter (hw : m w = .fresh) (hlt : w < a.size) :
    (unmet a (Function.update m w .active)).card < (unmet a m).card := by
  refine Finset.card_lt_card ⟨fun x hx => ?_, fun hsub => ?_⟩
  · by_cases hxw : x = w
    · simp [unmet, hxw] at hx
    · simpa [unmet, hxw] using hx
  · have hmem : w ∈ unmet a (Function.update m w .active) := hsub (by simp [unmet, hw, hlt])
    simp [unmet] at hmem

theorem card_unmet_le (h : ∀ x, m x ≠ .fresh → m' x ≠ .fresh) :
    (unmet a m').card ≤ (unmet a m).card := by
  refine Finset.card_le_card fun x hx => ?_
  simp only [unmet, Finset.mem_filter] at hx ⊢
  exact ⟨hx.1, by_contra fun hmet => h x hmet hx.2⟩

/-! ## Agreement with the gathering -/

/-- Taking nodes off one by one stops at the first occurrence of a node of the stack. -/
theorem popTo_eq {stack : List Nat} (hv : v ∈ stack) :
    popTo v stack =
      (stack.takeWhile (· != v) ++ [v], (stack.dropWhile (· != v)).drop 1) := by
  induction stack with
  | nil => cases hv
  | cons w stack ih =>
    rw [popTo]
    by_cases hwv : w = v
    · simp [hwv]
    · have hv' : v ∈ stack := (List.mem_cons.1 hv).resolve_left (Ne.symm hwv)
      simp [hwv, ih hv']

/-- The recursion and the gathering have come to the same when the search has the marks `m`. -/
structure Tracks (disc : NodeMap Nat) (m : Nat → Mark) (g : Gathering) (s : Recursion) : Prop where
  index : ∀ x, s.index.get x = if m x = .fresh then none else some (disc.get x)
  low : s.low = g.low
  stack : s.stack = g.stack
  components : s.components = g.components.toList

namespace Tracks

theorem start : Tracks disc (fun _ => .fresh) .start .start :=
  ⟨fun x => by simp [Recursion.start], rfl, rfl, rfl⟩

theorem discover (h : Tracks disc m g s) (hcount : disc.get w = s.count) :
    Tracks disc (Function.update m w .active) (g.read disc (.discover w)) (s.discover w) := by
  refine ⟨fun x => ?_, ?_, ?_, h.components⟩
  · by_cases hx : x = w
    · simp [Recursion.discover, hx, hcount]
    · simp [Recursion.discover, hx, h.index]
  · simp only [Recursion.discover, Gathering.read, h.low, hcount]
  · simp only [Recursion.discover, Gathering.read, h.stack]

theorem lower (h : Tracks disc m g s) (v n : Nat) :
    Tracks disc m (g.lower v n) (s.lower v n) :=
  ⟨h.index, by simp only [Recursion.lower, Gathering.lower, h.low], h.stack, h.components⟩

/-- An edge to a node that was met lowers the lowlink in the same way. -/
theorem revisit (h : Tracks disc m g s) (hg : g.Sound a disc m) (k : Bool) :
    Tracks disc m (g.read disc (.revisit v w k)) (s.revisit path v w (disc.get w)) := by
  have hstacked : w ∈ s.stack ↔ g.stacked.get w = true := by rw [h.stack, hg.stacked_iff]
  have hnoted : Tracks disc m g { s with
      backEdges := s.backEdges ++ if w ∈ path ∧ w ≠ v then [⟨v, w⟩] else [] } :=
    ⟨h.index, h.low, h.stack, h.components⟩
  simp only [Recursion.revisit, Gathering.read, hstacked]
  split
  · exact hnoted.lower v _
  · exact hnoted

theorem passUp (h : Tracks disc m g s) (w : Nat) (p : Option Nat) :
    Tracks disc m (g.passUp w p) (s.passUp w p) := by
  cases p with
  | none => exact h
  | some v =>
    rw [Recursion.passUp, h.low]
    exact h.lower v _

theorem mark_done (h : Tracks disc m g s) (hw : m w = .active) :
    Tracks disc (Function.update m w .done) g s := by
  refine ⟨fun x => ?_, h.low, h.stack, h.components⟩
  by_cases hx : x = w
  · simp [hx, h.index, hw]
  · rw [Function.update_of_ne hx, h.index]

/-- A component is closed at the same time, and it is the same one. -/
theorem leave (h : Tracks disc m g s) (hg : g.Sound a disc m) (hw : m w = .active) :
    Tracks disc m (if g.low.get w = disc.get w then g.close w else g) (s.leave w) := by
  have hindex : s.index.get w = some (s.low.get w) ↔ g.low.get w = disc.get w := by
    rw [h.index, hw, if_neg (by simp), h.low, Option.some.injEq, eq_comm]
  have hstack : w ∈ s.stack := h.stack ▸ hg.mem_stack w hw
  simp only [Recursion.leave, hindex, popTo_eq hstack]
  split
  · refine ⟨h.index, h.low, ?_, ?_⟩
    · simp only [Gathering.close, h.stack]
    · simp only [Gathering.close, h.stack, h.components, Array.toList_push]
  · exact h

/-- The search passes the low point on before it closes the component, and the recursion passes the
lowlink on after that. -/
theorem finish (h : Tracks disc m g s) (hg : g.Sound a disc m) (hw : m w = .active) :
    Tracks disc (Function.update m w .done) (g.read disc (.finish w p))
      ((s.leave w).passUp w p) := by
  have hclose : (g.passUp w p).close w = (g.close w).passUp w p := by cases p <;> rfl
  have hleft := ((h.leave hg hw).passUp w p).mark_done hw
  rw [Gathering.read_finish, hclose]
  split at hleft
  · rename_i hlow
    rwa [if_pos hlow]
  · rename_i hlow
    rwa [if_neg hlow]

end Tracks

/-! ## A scan -/

/-- The discovered nodes of a report have the numbers from `n` on. -/
def Consecutive (disc : NodeMap Nat) (n : Nat) (es : List Event) : Prop :=
  (discovered es).map disc.get = List.range' n (discovered es).length

theorem Consecutive.enter {n : Nat}
    (h : Consecutive disc n (.discover w :: (es₁ ++ .finish w p :: es₂))) :
    disc.get w = n ∧ Consecutive disc (n + 1) es₁ ∧
      Consecutive disc (n + 1 + (discovered es₁).length) es₂ := by
  rw [Consecutive, discovered_enter, List.map_cons, List.map_append, List.length_cons,
    List.length_append, List.range'_succ, ← List.range'_append_1] at h
  obtain ⟨hfirst, hrest⟩ := List.cons.inj h
  obtain ⟨hbelow, hrest⟩ := List.append_inj hrest (by simp)
  exact ⟨hfirst, hbelow, hrest⟩

theorem Consecutive.skip {n : Nat} {k : Mark} (h : Consecutive disc n (revisits p w k ++ es)) :
    Consecutive disc n es := by
  simpa [Consecutive] using h

@[simp] theorem count_leave : (s.leave w).count = s.count := by
  rw [leave]
  split <;> rfl

@[simp] theorem backEdges_leave : (s.leave w).backEdges = s.backEdges := by
  rw [leave]
  split <;> rfl

@[simp] theorem count_passUp : (s.passUp w p).count = s.count := by cases p <;> rfl

@[simp] theorem backEdges_passUp : (s.passUp w p).backEdges = s.backEdges := by cases p <;> rfl

@[simp] theorem count_revisit : (s.revisit path v w i).count = s.count := by
  simp only [revisit]
  by_cases hw : w ∈ s.stack
  · rw [if_pos hw]
    rfl
  · rw [if_neg hw]

@[simp] theorem backEdges_revisit : (s.revisit path v w i).backEdges =
    s.backEdges ++ if w ∈ path ∧ w ≠ v then [⟨v, w⟩] else [] := by
  simp only [revisit]
  by_cases hw : w ∈ s.stack
  · rw [if_pos hw]
    rfl
  · rw [if_neg hw]

/-- What the recursion makes of a report that the search makes from the state `g` on. -/
structure Follows (disc : NodeMap Nat) (g : Gathering) (s : Recursion) (es : List Event)
    (m' : Nat → Mark) (s' : Recursion) : Prop where
  tracks : Tracks disc m' (es.foldl (Gathering.read disc) g) s'
  count : s'.count = s.count + (discovered es).length
  backEdges : s'.backEdges = s.backEdges ++ DepthFirst.backEdges es

theorem Follows.append {es' : List Event} {m'' : Nat → Mark} {s' s'' : Recursion}
    (h : Follows disc g s es m' s')
    (h' : Follows disc (es.foldl (Gathering.read disc) g) s' es' m'' s'') :
    Follows disc g s (es ++ es') m'' s'' := by
  refine ⟨?_, ?_, ?_⟩
  · rw [List.foldl_append]
    exact h'.tracks
  · rw [h'.count, h.count, discovered_append, List.length_append, Nat.add_assoc]
  · rw [h'.backEdges, h.backEdges, backEdges_append, List.append_assoc]

/-- The edge to a node that was met before is noted as the search tells of it. -/
theorem step_met (ht : Tracks disc m g s) (hg : g.Sound a disc m) (hp : path.head? = p)
    (hactive : ∀ x, x ∈ path ↔ m x = .active) (hw : m w ≠ .fresh) :
    ∃ s', (∀ depth, step a depth path s w = some s') ∧
      Follows disc g s (revisits p w (m w)) m s' := by
  have hindex : s.index.get w = some (disc.get w) := by rw [ht.index, if_neg hw]
  rw [← hp]
  cases path with
  | nil =>
    refine ⟨s, fun depth => ?_, ht, rfl, (List.append_nil _).symm⟩
    rw [step.eq_def, hindex]
  | cons v path =>
    refine ⟨s.revisit (v :: path) v w (disc.get w), fun depth => ?_,
      ht.revisit hg (decide (m w = .active)), ?_, ?_⟩
    · rw [step.eq_def, hindex]
    · rw [List.head?_cons, discovered_revisits, count_revisit]
      rfl
    · simp only [List.head?_cons, backEdges_revisits, backEdges_revisit, hactive]

/-- A call for a fresh node follows what the search does below it if the loop of the call does. It
nests one deeper than that loop. -/
theorem step_fresh (ht : Tracks disc m g s) (hp : path.head? = p) (hw : m w = .fresh)
    (hrun : ∀ depth, n ≤ depth →
      (a.succ w).foldlM (step a depth (w :: path)) (s.discover w) = some s₁)
    (h : Follows disc (g.read disc (.discover w)) (s.discover w) es m₁ s₁)
    (hg₁ : (es.foldl (Gathering.read disc) (g.read disc (.discover w))).Sound a disc m₁)
    (hmark : m₁ w = .active) :
    ∃ s', (∀ depth, n < depth → step a depth path s w = some s') ∧
      Follows disc g s (.discover w :: (es ++ [.finish w p])) (Function.update m₁ w .done) s' := by
  have hindex : s.index.get w = none := by rw [ht.index, if_pos hw]
  refine ⟨(s₁.leave w).passUp w p, fun depth hdepth => ?_, ?_, ?_, ?_⟩
  · obtain ⟨k, rfl⟩ := Nat.exists_eq_succ_of_ne_zero (Nat.ne_of_gt (Nat.zero_lt_of_lt hdepth))
    rw [step.eq_def, hindex]
    change (connect a (k + 1) path w s).map (·.passUp w path.head?) = _
    rw [connect_succ, hrun k (Nat.le_of_lt_succ hdepth), hp]
    rfl
  · rw [List.foldl_cons, List.foldl_append]
    exact h.tracks.finish hg₁ hmark
  · rw [count_passUp, count_leave, h.count, discovered_enter]
    simp [Recursion.discover]
    omega
  · rw [backEdges_passUp, backEdges_leave, h.backEdges, backEdges_enter]
    simp [Recursion.discover]

/-- The loops of the recursion do what the search does, if their calls may nest as deep as there are
nodes left. The search tells of a scan as of the nested calls: a fresh node is one call, and any
other node one edge. -/
theorem foldlM_step (h : Scan a p ws m es m') (hlt : ∀ w ∈ ws, w < a.size)
    (hpath : Along a p ws m) (hnum : Numbered disc m es) (hg : g.Sound a disc m)
    (ht : Tracks disc m g s) (hp : path.head? = p) (hactive : ∀ x, x ∈ path ↔ m x = .active)
    (hcount : Consecutive disc s.count es) :
    ∃ s', (∀ depth, (unmet a m).card ≤ depth → ws.foldlM (step a depth path) s = some s') ∧
      Follows disc g s es m' s' := by
  induction h generalizing g s path with
  | nil => exact ⟨s, fun _ _ => rfl, ht, rfl, (List.append_nil _).symm⟩
  | @enter p w ws m m₁ m₂ es₁ es₂ hw hbelow hrest ihbelow ihrest =>
    obtain ⟨hltw, hltrest⟩ := List.forall_mem_cons.1 hlt
    obtain ⟨hfirst, hcountbelow, hcountrest⟩ := hcount.enter
    have hlater : ∀ x, m x ≠ .fresh → disc.get x < disc.get w :=
      fun x hx => hnum.later x hx w (by simp)
    have hgw := hg.discover hw hlater fun y hy => hpath.reaches_head hy
    have hgathered := gathered hbelow hpath.enter hnum.below hgw
    -- the call for `w` is the new end of the path of calls
    have hactivebelow : ∀ x, x ∈ w :: path ↔ Function.update m w .active x = .active := fun x => by
      rw [List.mem_cons, hactive, update_active_eq_active_iff]
    obtain ⟨s₁, hrun₁, h₁⟩ := ihbelow (fun x hx => (a.lt_of_mem_succ hx).2) hpath.enter hnum.below
      hgw (ht.discover hfirst) List.head?_cons hactivebelow hcountbelow
    obtain ⟨s₂, hstep, h₂⟩ := step_fresh ht hp hw hrun₁ h₁ hgathered.sound
      (hbelow.active_iff.2 (by simp))
    -- when it returns, the path is the old one
    have hg₂ : ((Event.discover w :: (es₁ ++ [.finish w p])).foldl (Gathering.read disc) g).Sound a
        disc (Function.update m₁ w .done) := by
      simpa using (Gathered.enter hw hg hpath.head hbelow hgathered).sound
    have hcount₂ : Consecutive disc s₂.count es₂ := by
      rw [h₂.count, discovered_enter, discovered_nil, List.append_nil, List.length_cons]
      rwa [Nat.add_assoc, Nat.add_comm 1] at hcountrest
    obtain ⟨s', hrun, h'⟩ := ihrest hltrest (hpath.leave hw hbelow) (hnum.rest hbelow) hg₂
      h₂.tracks hp (fun x => (hactive x).trans (hbelow.active_left_iff hw).symm) hcount₂
    refine ⟨s', fun depth hdepth => ?_, by simpa using h₂.append h'⟩
    have hunmet : (unmet a (Function.update m₁ w .done)).card ≤ (unmet a m).card :=
      card_unmet_le fun x hx => hbelow.met_left_of_met hx
    rw [List.foldlM_cons, hstep depth (Nat.lt_of_lt_of_le (card_unmet_enter hw hltw) hdepth)]
    exact hrun depth (Nat.le_trans hunmet hdepth)
  | @skip p w ws m m' es hw hrest ih =>
    obtain ⟨-, hltrest⟩ := List.forall_mem_cons.1 hlt
    obtain ⟨s₁, hstep, h₁⟩ := step_met ht hg hp hactive hw
    have hg₁ := (Gathered.skip hg hpath.head).sound
    obtain ⟨s', hrun, h'⟩ := ih hltrest hpath.tail hnum.skip hg₁ h₁.tracks hp hactive
      (by simpa [h₁.count] using hcount.skip)
    refine ⟨s', fun depth hdepth => ?_, h₁.append h'⟩
    rw [List.foldlM_cons, hstep depth]
    exact hrun depth hdepth

end Recursion

/-- The search finds what the recursion finds, whose calls nest no deeper than there are nodes: the
indices of the nodes, and the back edges and the components with their order. So does the search
that refuses to read outside its tables. -/
theorem StrongComponents.eq_recursion (a : Adjacency) :
    ∃ s, (∀ depth, a.size ≤ depth → a.recursion? depth = some s) ∧
      (∀ v, s.index.get v =
        if v < a.size then some (a.strongComponents.discovery.get v) else none) ∧
      s.backEdges = a.strongComponents.backEdges ∧
      s.components = a.strongComponents.components ∧
      ∀ w : Checked.View, w.Shows a →
        ∃ x, Checked.strongComponents? w = some x ∧ x.discovery.get? = s.index.get ∧
          x.backEdges = s.backEdges ∧ x.components = s.components := by
  obtain ⟨m, hscan⟩ := a.scan_depthFirst
  have hcount : Recursion.Consecutive a.strongComponents.discovery 0 a.depthFirst := by
    have hmap := map_discovery a
    have hlength := congrArg List.length hmap
    rw [List.length_map, List.length_range] at hlength
    rw [Recursion.Consecutive, hmap, hlength, List.range_eq_range']
  have hlt : ∀ w ∈ a.nodes, w < a.size := fun w hw => Adjacency.mem_nodes.1 hw
  obtain ⟨s, hrun, hfollows⟩ := Recursion.foldlM_step hscan hlt .start (numbered_depthFirst a)
    Gathering.Sound.start .start List.head?_nil (by simp) hcount
  have hindex : ∀ v, s.index.get v =
      if v < a.size then some (a.strongComponents.discovery.get v) else none := by
    intro v
    have hmet : m v ≠ .fresh ↔ v < a.size := by
      rw [← Adjacency.mem_nodes, ← (perm_discovered_depthFirst a).mem_iff, hscan.mem_discovered]
      simp
    rw [hfollows.tracks.index]
    by_cases hv : v < a.size
    · rw [if_neg (hmet.2 hv), if_pos hv]
    · rw [if_pos (not_not.1 (mt hmet.1 hv)), if_neg hv]
  have hedges : s.backEdges = a.strongComponents.backEdges := hfollows.backEdges
  have hcomponents : s.components = a.strongComponents.components := hfollows.tracks.components
  have hunmet : (Recursion.unmet a fun _ => .fresh).card = a.size := by simp [Recursion.unmet]
  refine ⟨s, fun depth hdepth => ?_, hindex, hedges, hcomponents, fun w hw => ?_⟩
  · rw [Recursion.recursion?_eq]
    exact hrun depth (hunmet.trans_le hdepth)
  · refine ⟨_, Checked.strongComponents?_eq_some hw, ?_, hedges.symm, hcomponents.symm⟩
    funext v
    exact (hindex v).symm

/-- In a graph with an edge from each of three nodes to each other one, the edges to earlier nodes
are back edges. -/
example :
    let g : Digraph Unit :=
      ⟨#[(), (), ()], #[⟨0, 1⟩, ⟨0, 2⟩, ⟨1, 0⟩, ⟨1, 2⟩, ⟨2, 0⟩, ⟨2, 1⟩], by decide⟩
    (g.adjacency.recursion? 3).map (fun s => (s.components, s.backEdges)) =
      some ([[2, 1, 0]], [⟨1, 0⟩, ⟨2, 0⟩, ⟨2, 1⟩]) := by
  decide

end FlowBubbles
