import FlowBubbles.Digraph.DepthFirst
import Mathlib.Algebra.Order.BigOperators.Ring.Finset

/-!
# The depth-first search as a recursion

The search keeps its path as a stack. `Scan` says the same without one: to deal with a list of
nodes is to deal with its first node, which may mean a whole search below it, and then with the
rest. The main statement is `scan_depthFirst`: the report of the search is the report of one scan
of all start nodes. Facts about the report are proved by induction on a scan.
-/

namespace FlowBubbles

namespace DepthFirst

/-- What is told about a node that was met before: nothing if it is looked at as a start node. -/
def revisits : Option Nat → Nat → Mark → List Event
  | none, _, _ => []
  | some v, w, k => [.revisit v w (decide (k = .active))]

/-- `Scan a p ws m es m'`: dealing with the nodes `ws`, to which the edges out of `p` lead, or
which are start nodes if there is no `p`, turns the marks `m` into `m'` and tells `es`. -/
inductive Scan (a : Adjacency) :
    Option Nat → List Nat → (Nat → Mark) → List Event → (Nat → Mark) → Prop
  | nil {p m} : Scan a p [] m [] m
  /-- A fresh node is met, everything below it is dealt with, and it is finished. -/
  | enter {p w ws m m₁ m₂ es₁ es₂} (hw : m w = .fresh)
      (hbelow : Scan a (some w) (a.succ w) (Function.update m w .active) es₁ m₁)
      (hrest : Scan a p ws (Function.update m₁ w .done) es₂ m₂) :
      Scan a p (w :: ws) m (.discover w :: (es₁ ++ .finish w p :: es₂)) m₂
  | skip {p w ws m m' es} (hw : m w ≠ .fresh) (hrest : Scan a p ws m es m') :
      Scan a p (w :: ws) m (revisits p w (m w) ++ es) m'

variable {a : Adjacency} {p : Option Nat} {ws ws' : List Nat} {m m' m'' : Nat → Mark}
  {es es' : List Event}

/-- A scan is determined by the marks it starts from. -/
theorem Scan.unique (h : Scan a p ws m es m') (h' : Scan a p ws m es' m'') :
    es = es' ∧ m' = m'' := by
  induction h generalizing es' m'' with
  | nil => cases h'; exact ⟨rfl, rfl⟩
  | enter hw _ _ ihbelow ihrest =>
    cases h' with
    | enter _ hbelow' hrest' =>
      obtain ⟨rfl, rfl⟩ := ihbelow hbelow'
      obtain ⟨rfl, rfl⟩ := ihrest hrest'
      exact ⟨rfl, rfl⟩
    | skip hw' _ => exact absurd hw hw'
  | skip hw _ ih =>
    cases h' with
    | enter hw' _ _ => exact absurd hw' hw
    | skip _ hrest' =>
      obtain ⟨rfl, rfl⟩ := ih hrest'
      exact ⟨rfl, rfl⟩

/-- Two lists of nodes are dealt with one after the other. -/
theorem Scan.append (h : Scan a p ws m es m') (h' : Scan a p ws' m' es' m'') :
    Scan a p (ws ++ ws') m (es ++ es') m'' := by
  induction h with
  | nil => exact h'
  | enter hw hbelow _ _ ihrest =>
    have := Scan.enter hw hbelow (ihrest h')
    simpa using this
  | skip hw _ ih =>
    have := Scan.skip hw (ih h')
    simpa using this

/-! ## The work that is left -/

/-- The steps that the fresh nodes still ask for: each is entered and left, and the edges out of it
are followed. -/
def workLeft (a : Adjacency) (m : Nat → Mark) : Nat :=
  ∑ v ∈ Finset.range a.size, if m v = .fresh then (a.succ v).length + 2 else 0

theorem workLeft_enter {w : Nat} (hw : m w = .fresh) (hlt : w < a.size) :
    workLeft a (Function.update m w .active) + ((a.succ w).length + 2) = workLeft a m := by
  have hmem : w ∈ Finset.range a.size := Finset.mem_range.2 hlt
  rw [workLeft, workLeft, ← Finset.add_sum_erase _ _ hmem, ← Finset.add_sum_erase _ _ hmem]
  have hrest : ∀ v ∈ (Finset.range a.size).erase w,
      (if Function.update m w Mark.active v = .fresh then (a.succ v).length + 2 else 0) =
        if m v = .fresh then (a.succ v).length + 2 else 0 := by
    intro v hv
    rw [Function.update_of_ne (Finset.ne_of_mem_erase hv)]
  rw [Finset.sum_congr rfl hrest]
  simp only [Function.update_self, hw, reduceCtorEq, if_true, if_false]
  omega

theorem workLeft_finish {w : Nat} (m : Nat → Mark) :
    workLeft a (Function.update m w .done) ≤ workLeft a m := by
  refine Finset.sum_le_sum fun v _ => ?_
  by_cases hv : v = w
  · subst hv; simp
  · rw [Function.update_of_ne hv]

theorem workLeft_start : workLeft a (fun _ => .fresh) = 2 * a.size + a.edgeCount := by
  have hcount : ∀ (l : List Nat) (n : Nat),
      l.foldl (fun n v => n + (a.succ v).length) n = n + (l.map fun v => (a.succ v).length).sum := by
    intro l
    induction l with
    | nil => simp
    | cons v l ih => intro n; simp [ih, Nat.add_assoc]
  have hsum : a.edgeCount = ∑ v ∈ Finset.range a.size, (a.succ v).length := by
    rw [Adjacency.edgeCount, hcount, Nat.zero_add]
    rfl
  have htwo : ∑ _v ∈ Finset.range a.size, 2 = a.size * 2 := by
    rw [Finset.sum_const_nat fun _ _ => rfl, Finset.card_range]
  simp only [workLeft, if_true, hsum, Finset.sum_add_distrib, htwo]
  omega

/-- Every list of nodes can be dealt with. -/
theorem exists_scan (a : Adjacency) :
    ∀ (k : Nat) (p : Option Nat) (ws : List Nat) (m : Nat → Mark),
      workLeft a m + ws.length ≤ k → (∀ w ∈ ws, w < a.size) →
      ∃ es m', Scan a p ws m es m' ∧ workLeft a m' ≤ workLeft a m
  | _, _, [], m, _, _ => ⟨[], m, .nil, Nat.le_refl _⟩
  | 0, _, _ :: _, _, hk, _ => by simp at hk
  | k + 1, p, w :: ws, m, hk, hlt => by
    rw [List.length_cons] at hk
    have hltrest : ∀ x ∈ ws, x < a.size := fun x hx => hlt x (List.mem_cons_of_mem _ hx)
    by_cases hw : m w = .fresh
    · -- what entering `w` takes off the work pays for the edges out of it
      have hwork := workLeft_enter hw (hlt w List.mem_cons_self)
      obtain ⟨es₁, m₁, hbelow, hle⟩ := exists_scan a k (some w) (a.succ w)
        (Function.update m w .active) (by omega) fun x hx => (a.lt_of_mem_succ hx).2
      have hfinish := workLeft_finish (a := a) (w := w) m₁
      obtain ⟨es₂, m₂, hrest, hle'⟩ := exists_scan a k p ws (Function.update m₁ w .done)
        (by omega) hltrest
      exact ⟨_, m₂, .enter hw hbelow hrest, by omega⟩
    · obtain ⟨es, m', hrest, hle⟩ := exists_scan a k p ws m (by omega) hltrest
      exact ⟨_, m', .skip hw hrest, hle⟩

/-! ## The stack machine -/

/-- The path when the nodes `ws` below its end `p` are to be dealt with, or start nodes. -/
def pathAt (p : Option Nat) (ws : List Nat) (path : List (Nat × List Nat)) :
    List (Nat × List Nat) :=
  match p with
  | none => []
  | some v => (v, ws) :: path

/-- The start nodes that are left when the nodes `ws` are to be dealt with. -/
def rootsAt (p : Option Nat) (ws roots : List Nat) : List Nat :=
  match p with
  | none => ws
  | some _ => roots

/-- The state of a search that is about to deal with the nodes `ws`. -/
def Search.dealing (p : Option Nat) (ws : List Nat) (mark : NodeMap Mark)
    (path : List (Nat × List Nat)) (roots : List Nat) (events : Array Event) : Search :=
  ⟨mark, pathAt p ws path, rootsAt p ws roots, events⟩

section

variable {mark : NodeMap Mark} {path : List (Nat × List Nat)} {roots : List Nat}
  {events : Array Event} {w : Nat}

theorem Search.halted_dealing_cons :
    (Search.dealing p (w :: ws) mark path roots events).halted = false := by
  cases p <;> simp [dealing, pathAt, rootsAt, halted]

theorem Search.halted_dealing_some {v : Nat} :
    (Search.dealing (some v) ws mark path roots events).halted = false := by
  simp [dealing, pathAt, halted]

theorem Search.halted_dealing_none :
    (Search.dealing none [] mark path roots events).halted = true := rfl

/-- A fresh node becomes the end of the path. -/
theorem Search.next_dealing_fresh (hw : mark.get w = .fresh) :
    (Search.dealing p (w :: ws) mark path roots events).next a =
      .dealing (some w) (a.succ w) (mark.set w .active) (pathAt p ws path) (rootsAt p ws roots)
        (events.push (.discover w)) := by
  cases p <;> simp [dealing, pathAt, rootsAt, next, hw, enter]

/-- A node that was met before is told and passed over. -/
theorem Search.next_dealing_met (hw : mark.get w ≠ .fresh) :
    (Search.dealing p (w :: ws) mark path roots events).next a =
      .dealing p ws mark path roots (events ++ (revisits p w (mark.get w)).toArray) := by
  cases p <;> cases hmark : mark.get w <;>
    simp_all [dealing, pathAt, rootsAt, next, revisits]

/-- The end of the path is left when nothing below it is left to do. -/
theorem Search.next_dealing_nil :
    (Search.dealing (some w) [] mark (pathAt p ws path) (rootsAt p ws roots) events).next a =
      .dealing p ws (mark.set w .done) path roots (events.push (.finish w p)) := by
  cases p <;> simp [dealing, pathAt, rootsAt, next]

/-- The machine does what the scan says, and pays for its steps with the work that is left. -/
theorem Scan.run (h : Scan a p ws m es m') :
    ∀ (mark : NodeMap Mark) (path : List (Nat × List Nat)) (roots : List Nat)
      (events : Array Event), mark.get = m → (∀ w ∈ ws, w < a.size) →
      ∃ (n : Nat) (mark' : NodeMap Mark), mark'.get = m' ∧
        n + workLeft a m' ≤ workLeft a m + ws.length ∧
        ∀ fuel, iterate Search.halted (Search.next a) (n + fuel)
            (.dealing p ws mark path roots events) =
          iterate Search.halted (Search.next a) fuel
            (.dealing p [] mark' path roots (events ++ es.toArray)) := by
  induction h with
  | nil =>
    intro mark path roots events hm _
    exact ⟨0, mark, hm, by simp, by simp⟩
  | @enter p w ws m m₁ m₂ es₁ es₂ hw _ _ ihbelow ihrest =>
    intro mark path roots events hm hlt
    obtain ⟨n₁, mark₁, hm₁, hn₁, hrun₁⟩ := ihbelow (mark.set w .active)
      (pathAt p ws path)
      (rootsAt p ws roots) (events.push (.discover w))
      (by funext v; simp [hm, Function.update_apply])
      fun x hx => (a.lt_of_mem_succ hx).2
    obtain ⟨n₂, mark₂, hm₂, hn₂, hrun₂⟩ := ihrest (mark₁.set w .done) path roots
      ((events.push (.discover w) ++ es₁.toArray).push (.finish w p))
      (by funext v; simp [hm₁, Function.update_apply])
      fun x hx => hlt x (List.mem_cons_of_mem _ hx)
    have hwork := workLeft_enter hw (hlt w List.mem_cons_self)
    have hfinish := workLeft_finish (a := a) (w := w) m₁
    -- one step enters `w` and one leaves it
    refine ⟨n₁ + (n₂ + 1) + 1, mark₂, hm₂, by rw [List.length_cons]; omega, fun fuel => ?_⟩
    calc iterate Search.halted (Search.next a) (n₁ + (n₂ + 1) + 1 + fuel)
          (.dealing p (w :: ws) mark path roots events)
        = iterate Search.halted (Search.next a) (n₁ + (n₂ + fuel + 1))
            (.dealing (some w) (a.succ w) (mark.set w .active) (pathAt p ws path)
              (rootsAt p ws roots) (events.push (.discover w))) := by
          rw [← Search.next_dealing_fresh (by rw [hm, hw]),
            ← iterate_succ Search.halted_dealing_cons]
          congr 1
          omega
      _ = iterate Search.halted (Search.next a) (n₂ + fuel)
            (.dealing p ws (mark₁.set w .done) path roots
              ((events.push (.discover w) ++ es₁.toArray).push (.finish w p))) := by
          rw [hrun₁, iterate_succ Search.halted_dealing_some]
          congr 1
          exact Search.next_dealing_nil
      _ = _ := by
          rw [hrun₂]
          simp
  | @skip p w ws m m' es hw _ ih =>
    intro mark path roots events hm hlt
    obtain ⟨n, mark', hm', hn, hrun⟩ := ih mark path roots
      (events ++ (revisits p w (m w)).toArray) hm fun x hx => hlt x (List.mem_cons_of_mem _ hx)
    refine ⟨n + 1, mark', hm', by rw [List.length_cons]; omega, fun fuel => ?_⟩
    rw [Nat.add_right_comm, iterate_succ Search.halted_dealing_cons,
      Search.next_dealing_met (by rwa [hm]), hm, hrun]
    simp

end

/-- The search of a whole graph ends with all start nodes dealt with. -/
theorem exists_scan_of_start (a : Adjacency) :
    ∃ es m mark, Scan a none a.nodes (fun _ => .fresh) es m ∧
      iterate Search.halted (Search.next a) (stepBound a) (Search.start a) =
        .dealing none [] mark [] [] es.toArray := by
  have hlt : ∀ w ∈ a.nodes, w < a.size := fun w hw => List.mem_range.1 hw
  obtain ⟨es, m, hscan, -⟩ := exists_scan a _ none a.nodes (fun _ => .fresh) (Nat.le_refl _) hlt
  obtain ⟨n, mark, -, hn, hrun⟩ := hscan.run (.const .fresh) [] [] #[] (by funext; simp) hlt
  have hbound : n ≤ stepBound a := by
    rw [workLeft_start, Adjacency.nodes, List.length_range] at hn
    rw [stepBound]
    omega
  refine ⟨es, m, mark, hscan, ?_⟩
  -- the fuel that is left over is of no use to a search that has halted
  have hrun := hrun (stepBound a - n)
  rw [Nat.add_sub_cancel' hbound, iterate_of_halted Search.halted_dealing_none] at hrun
  have hstart : Search.start a = .dealing none a.nodes (.const .fresh) [] [] #[] := rfl
  rw [hstart, hrun, Array.empty_append]

theorem halted_depthFirst (a : Adjacency) :
    (iterate Search.halted (Search.next a) (stepBound a) (Search.start a)).halted = true := by
  obtain ⟨es, m, mark, -, hrun⟩ := exists_scan_of_start a
  rw [hrun]
  exact Search.halted_dealing_none

end DepthFirst

/-- The report of the search is the report of one scan of all nodes. -/
theorem Adjacency.scan_depthFirst (a : Adjacency) :
    ∃ m, DepthFirst.Scan a none a.nodes (fun _ => .fresh) a.depthFirst m := by
  obtain ⟨es, m, mark, hscan, hrun⟩ := DepthFirst.exists_scan_of_start a
  have hevents : a.depthFirst = es := by
    rw [Adjacency.depthFirst, hrun, DepthFirst.Search.dealing]
  exact ⟨m, hevents ▸ hscan⟩

end FlowBubbles
