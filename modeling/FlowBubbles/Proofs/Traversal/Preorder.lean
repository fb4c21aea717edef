import FlowBubbles.Proofs.Traversal.Order
import Mathlib.Data.List.Dedup
import Mathlib.Logic.Function.Iterate

/-!
# A visit as a recursion

A recursive search that lists a node, claims those of its successors that nobody has claimed, and
only then calls itself for each of these in turn, lists the nodes in the order of the visit
(`Digraph.visit_eq_claiming`). The stack of the visit holds what the calls have left to do: the
nodes that a call has claimed lie on top of those that were there before, and they are all gone when
the call returns (`Claiming.foldlM_explore`).

A depth-first search in preorder claims a node when it comes to it and not before. Its list may be a
different one (`Digraph.visit_ne_preorder`).
-/

namespace FlowBubbles

/-! ## Two recursions -/

/-- Lists a node, and then what the calls list for its successors, one after the other, that are not
listed when their turn comes. Calls that would nest more than `depth` deep give nothing. -/
def descend (row : Nat → List Nat) : Nat → List Nat → Nat → Option (List Nat)
  | 0, _, _ => none
  | depth + 1, listed, v =>
    (row v).foldlM (fun listed w =>
      if w ∈ listed then some listed else descend row depth listed w) (listed ++ [v])

/-- The nodes in the preorder of the depth-first search from `start`. -/
def preorder? (row : Nat → List Nat) (depth start : Nat) : Option (List Nat) :=
  descend row depth [] start

theorem foldlM_of_imp {σ α : Type} {f g : σ → α → Option σ} {l : List α} {s r : σ}
    (h : ∀ s x r, f s x = some r → g s x = some r) (hf : l.foldlM f s = some r) :
    l.foldlM g s = some r := by
  induction l generalizing s with
  | nil => exact hf
  | cons x l ih =>
    rw [List.foldlM_cons] at hf ⊢
    obtain ⟨s', hs', hrest⟩ := Option.bind_eq_some_iff.1 hf
    exact Option.bind_eq_some_iff.2 ⟨s', h s x s' hs', ih hrest⟩

/-- A deeper bound on the calls does not change what they list. -/
theorem descend_of_le {row : Nat → List Nat} {m n v : Nat} {listed l : List Nat}
    (h : descend row m listed v = some l) (hle : m ≤ n) : descend row n listed v = some l := by
  induction m generalizing n listed v l with
  | zero => cases h
  | succ m ih =>
    obtain ⟨n, rfl⟩ := Nat.exists_eq_succ_of_ne_zero (Nat.ne_of_gt (Nat.lt_of_lt_of_le m.succ_pos hle))
    rw [descend] at h ⊢
    refine foldlM_of_imp (fun listed w l hl => ?_) h
    split at hl
    · rename_i hw
      rw [if_pos hw, hl]
    · rename_i hw
      rw [if_neg hw, ih hl (Nat.le_of_succ_le_succ hle)]

/-- What a search with claims has come to. -/
structure Claiming where
  claimed : List Nat
  listed : List Nat

namespace Claiming

/-- Claims the successors of a node that are free and lists the node. -/
def claim (row : Nat → List Nat) (s : Claiming) (v : Nat) : Claiming :=
  ⟨s.claimed ++ (row v).filter (· ∉ s.claimed), s.listed ++ [v]⟩

/-- Lists a node and claims its free successors, and then does the same for each of these. Calls
that would nest more than `depth` deep give nothing. -/
def explore (row : Nat → List Nat) : Nat → Claiming → Nat → Option Claiming
  | 0, _, _ => none
  | depth + 1, s, v =>
    ((row v).filter (· ∉ s.claimed)).foldlM (explore row depth) (s.claim row v)

/-- The nodes in the order in which the search from `start` lists them. -/
def list? (row : Nat → List Nat) (depth start : Nat) : Option (List Nat) :=
  (explore row depth ⟨[start], []⟩ start).map listed

end Claiming

/-! ## Steps of a visit -/

variable {a : Adjacency} {v w : Nat} {ws rest : List Nat} {s : Visit} {r : Claiming}

/-- A machine that stands still when it has halted may be stepped on. -/
theorem iterate_eq {σ : Type} {halted : σ → Bool} {step : σ → σ}
    (h : ∀ s, halted s = true → step s = s) (fuel : Nat) (s : σ) :
    iterate halted step fuel s = step^[fuel] s := by
  induction fuel generalizing s with
  | zero => rfl
  | succ fuel ih =>
    rw [Function.iterate_succ_apply]
    cases hs : halted s with
    | true => rw [iterate_of_halted hs, h s hs, Function.iterate_fixed (h s hs)]
    | false => rw [iterate_succ hs, ih]

theorem visitNext_of_nil (h : s.pending = []) : a.visitNext s = s := by
  rw [Adjacency.visitNext]
  split
  · rfl
  · rename_i v rest hcons
    cases h.symm.trans hcons

/-- A visit that comes to a state with an empty stack ends there. -/
theorem visitEnd_eq {start k : Nat} (h : ((a.visitNext)^[k] (a.visitStart start)).pending = []) :
    a.visitEnd start = (a.visitNext)^[k] (a.visitStart start) := by
  have hend : a.visitEnd start = (a.visitNext)^[a.size] (a.visitStart start) :=
    iterate_eq (fun s hs => visitNext_of_nil (List.isEmpty_iff.1 hs)) a.size _
  have hpending := a.halted_visitEnd start
  rw [hend] at hpending ⊢
  calc (a.visitNext)^[a.size] (a.visitStart start)
      = (a.visitNext)^[k] ((a.visitNext)^[a.size] (a.visitStart start)) :=
        (Function.iterate_fixed (visitNext_of_nil hpending) k).symm
    _ = (a.visitNext)^[a.size] ((a.visitNext)^[k] (a.visitStart start)) := by
        rw [← Function.iterate_add_apply, ← Function.iterate_add_apply, Nat.add_comm]
    _ = (a.visitNext)^[k] (a.visitStart start) :=
        Function.iterate_fixed (visitNext_of_nil h) a.size

namespace Visit

/-- Of equal nodes that are put on the stack the last one in the list gets there, as the list is
taken from its end. -/
theorem pending_foldl_push (ws : List Nat) (s : Visit) :
    (ws.reverse.foldl push s).pending =
      ws.dedup.filter (fun w => !s.marked.get w) ++ s.pending := by
  induction ws with
  | nil => rfl
  | cons w ws ih =>
    have hmarked : (ws.reverse.foldl push s).marked.get w = true ↔
        s.marked.get w = true ∨ w ∈ ws := by
      rw [get_marked_foldl_push, List.mem_reverse]
    rw [List.reverse_cons, List.foldl_append, List.foldl_cons, List.foldl_nil, push]
    split
    · rename_i hw
      rw [ih]
      rcases hmarked.1 hw with hold | hmem
      · by_cases hmem : w ∈ ws
        · rw [List.dedup_cons_of_mem hmem]
        · rw [List.dedup_cons_of_notMem hmem, List.filter_cons_of_neg (by simp [hold])]
      · rw [List.dedup_cons_of_mem hmem]
    · rename_i hw
      rw [hmarked, not_or] at hw
      rw [List.dedup_cons_of_notMem hw.2, List.filter_cons_of_pos (by simp [hw.1])]
      exact congrArg (List.cons w) ih

end Visit

/-! ## The stack and the calls -/

namespace Claiming

/-- The successors of a node, of equal ones the last. -/
def lastCopies (a : Adjacency) (v : Nat) : List Nat := (a.succ v).dedup

/-- The search and the visit have come to the same. -/
structure Tracks (s : Visit) (r : Claiming) : Prop where
  marked : ∀ w, s.marked.get w = true ↔ w ∈ r.claimed
  visited : s.visited.toList = r.listed

/-- A visited node is listed, and the nodes that it claims are put on the stack. -/
theorem Tracks.next (h : Tracks s r) (hpending : s.pending = v :: rest) :
    Tracks (a.visitNext s) (r.claim (lastCopies a) v) ∧
      (a.visitNext s).pending = (lastCopies a v).filter (· ∉ r.claimed) ++ rest := by
  have hnext : a.visitNext s = (a.succ v).reverse.foldl Visit.push
      { s with pending := rest, visited := s.visited.push v } := by
    rw [Adjacency.visitNext, hpending]
  have hfree : (fun w => !s.marked.get w) = fun w => decide (w ∉ r.claimed) := by
    funext w
    rw [Bool.eq_iff_iff, Bool.not_eq_true', decide_eq_true_eq, ← h.marked, Bool.not_eq_true]
  rw [hnext]
  refine ⟨⟨fun w => ?_, ?_⟩, ?_⟩
  · rw [Visit.get_marked_foldl_push, h.marked]
    simp only [claim, lastCopies, List.mem_append, List.mem_reverse, List.mem_filter,
      List.mem_dedup, decide_eq_true_eq]
    tauto
  · rw [Visit.visited_foldl_push, Array.toList_push, h.visited]
    rfl
  · rw [Visit.pending_foldl_push, hfree]
    rfl

/-- The nodes that nobody has claimed. -/
def free (a : Adjacency) (r : Claiming) : Finset Nat :=
  (Finset.range a.size).filter (· ∉ r.claimed)

theorem card_free_le {r' : Claiming} (h : r.claimed ⊆ r'.claimed) :
    (free a r').card ≤ (free a r).card := by
  refine Finset.card_le_card fun w hw => ?_
  rw [free, Finset.mem_filter] at hw ⊢
  exact ⟨hw.1, fun hmem => hw.2 (h hmem)⟩

theorem claimed_subset_claim (row : Nat → List Nat) (r : Claiming) (v : Nat) :
    r.claimed ⊆ (r.claim row v).claimed :=
  List.subset_append_left _ _

theorem card_free_claim (h : (lastCopies a v).filter (· ∉ r.claimed) ≠ []) :
    (free a (r.claim (lastCopies a) v)).card < (free a r).card := by
  obtain ⟨w, hw⟩ := List.exists_mem_of_ne_nil _ h
  have hclaimed : w ∈ (r.claim (lastCopies a) v).claimed := List.mem_append_right _ hw
  rw [List.mem_filter, decide_eq_true_eq, lastCopies, List.mem_dedup] at hw
  have hfree : w ∈ free a r := by
    rw [free, Finset.mem_filter, Finset.mem_range]
    exact ⟨(a.lt_of_mem_succ hw.1).2, hw.2⟩
  refine Finset.card_lt_card ⟨fun x hx => ?_, fun hsubset => ?_⟩
  · rw [free, Finset.mem_filter] at hx ⊢
    exact ⟨hx.1, fun hmem => hx.2 (claimed_subset_claim _ _ _ hmem)⟩
  · exact (Finset.mem_filter.1 (hsubset hfree)).2 hclaimed

/-- The calls for the nodes on top of the stack list what the visit lists until these nodes, and
whatever is put above them, are gone. They nest no deeper than there are nodes left to claim. -/
theorem foldlM_explore (depth : Nat) (ws rest : List Nat) (s : Visit) (r : Claiming)
    (h : Tracks s r) (hpending : s.pending = ws ++ rest)
    (hdepth : ws ≠ [] → (free a r).card < depth) :
    ∃ r' k, ws.foldlM (explore (lastCopies a) depth) r = some r' ∧ r.claimed ⊆ r'.claimed ∧
      Tracks ((a.visitNext)^[k] s) r' ∧ ((a.visitNext)^[k] s).pending = rest := by
  induction depth generalizing ws rest s r with
  | zero =>
    have hnil : ws = [] := by_contra fun hne => Nat.not_lt_zero _ (hdepth hne)
    subst hnil
    exact ⟨r, 0, rfl, List.Subset.refl _, h, hpending⟩
  | succ depth ihdepth =>
    induction ws generalizing s r with
    | nil => exact ⟨r, 0, rfl, List.Subset.refl _, h, hpending⟩
    | cons v ws ih =>
      obtain ⟨hnext, hstack⟩ := h.next (a := a) hpending
      have hdepth := hdepth (List.cons_ne_nil v ws)
      -- the call for `v`, whose own calls deal with what it claims
      obtain ⟨r₁, k₁, hrun₁, hsub₁, htracks₁, hpending₁⟩ :=
        ihdepth _ (ws ++ rest) _ _ hnext hstack fun hne => by
          have := card_free_claim hne
          omega
      -- the calls for the other nodes
      have hsub : r.claimed ⊆ r₁.claimed :=
        List.Subset.trans (claimed_subset_claim _ _ _) hsub₁
      obtain ⟨r', k', hrun', hsub', htracks', hpending'⟩ := ih _ _ htracks₁ hpending₁ fun _ =>
        Nat.lt_of_le_of_lt (card_free_le hsub) hdepth
      refine ⟨r', k' + (k₁ + 1), ?_, List.Subset.trans hsub hsub', ?_, ?_⟩
      · rw [List.foldlM_cons, explore, hrun₁]
        exact hrun'
      · rw [Function.iterate_add_apply, Function.iterate_succ_apply]
        exact htracks'
      · rw [Function.iterate_add_apply, Function.iterate_succ_apply]
        exact hpending'

/-- The search with claims lists what the visit lists. -/
theorem list?_eq_visit {start depth : Nat} (hstart : start < a.size) (hdepth : a.size ≤ depth) :
    list? (lastCopies a) depth start = some (a.visit start) := by
  have hvisit : a.visitStart start = ⟨(NodeMap.const false).set start true, [start], #[]⟩ :=
    if_pos hstart
  have htracks : Tracks (a.visitStart start) ⟨[start], []⟩ := by
    rw [hvisit]
    refine ⟨fun w => ?_, rfl⟩
    by_cases hw : w = start <;> simp [hw]
  have hfree : (free a ⟨[start], []⟩).card < depth := by
    have hmem : ∃ v ∈ Finset.range a.size, ¬v ∉ [start] :=
      ⟨start, Finset.mem_range.2 hstart, by simp⟩
    have hlt := Finset.card_lt_card (Finset.filter_ssubset.2 hmem)
    rw [Finset.card_range] at hlt
    exact Nat.lt_of_lt_of_le hlt hdepth
  obtain ⟨r, k, hrun, -, hend, hpending⟩ :=
    foldlM_explore (a := a) depth [start] [] _ _ htracks (by rw [hvisit]; rfl) fun _ => hfree
  have hexplore : explore (lastCopies a) depth ⟨[start], []⟩ start = some r := by
    simpa using hrun
  rw [list?, hexplore, Option.map_some, ← hend.visited, ← visitEnd_eq hpending]
  rfl

end Claiming

/-! ## The visit of a graph -/

namespace Digraph

theorem nodup_successors {κ : Type} {g : Digraph κ} (h : g.edges.toList.Nodup) (v : Nat) :
    (g.successors v).Nodup := by
  refine List.Nodup.map_on (fun e he e' he' htarget => ?_) (h.filter _)
  rw [List.mem_filter, beq_iff_eq] at he he'
  have hsource : e.source = e'.source := he.2.trans he'.2.symm
  cases e
  cases e'
  congr

/-- From a node of a graph the visit lists the nodes in the order of the search with claims, which
takes the free successors of a node in the order of the edges. A successor to which several edges
lead stands at the place of one of them; without parallel edges the rows are the successors
themselves. The calls nest no deeper than there are nodes. -/
theorem visit_eq_claiming {κ : Type} (g : Digraph κ) :
    ∃ row : Nat → List Nat,
      (∀ v, (row v).Nodup ∧ (row v).Sublist (g.successors v) ∧
        ∀ w, w ∈ row v ↔ w ∈ g.successors v) ∧
      (g.edges.toList.Nodup → row = g.successors) ∧
      ∀ start depth, start < g.size → g.size ≤ depth →
        Claiming.list? row depth start = some (g.adjacency.visit start) ∧
          Checked.visit? g.storage.view start = some (g.adjacency.visit start) := by
  refine ⟨Claiming.lastCopies g.adjacency, fun v => ?_, fun hnodup => funext fun v => ?_,
    fun start depth hstart hdepth => ⟨Claiming.list?_eq_visit hstart hdepth,
      Checked.visit?_eq_some g.shows_storage start⟩⟩
  · rw [Claiming.lastCopies, succ_adjacency]
    exact ⟨List.nodup_dedup _, List.dedup_sublist _, fun w => List.mem_dedup⟩
  · rw [Claiming.lastCopies, succ_adjacency]
    exact (nodup_successors hnodup v).dedup

/-- The visit need not be the preorder of the depth-first search. In the first graph the start
claims a node to which a successor of it has an edge, too. In the second one there are two edges to
the first successor, of which the later one counts. -/
theorem visit_ne_preorder :
    let g : Digraph Unit :=
      ⟨#[(), (), (), ()], #[⟨0, 1⟩, ⟨0, 2⟩, ⟨0, 3⟩, ⟨1, 3⟩], by decide⟩
    let g' : Digraph Unit := ⟨#[(), (), ()], #[⟨0, 1⟩, ⟨0, 2⟩, ⟨0, 1⟩], by decide⟩
    (∀ depth, g.size ≤ depth → preorder? g.successors depth 0 = some [0, 1, 3, 2]) ∧
      g.adjacency.visit 0 = [0, 1, 2, 3] ∧
      (∀ depth, g'.size ≤ depth → preorder? g'.successors depth 0 = some [0, 1, 2]) ∧
      g'.adjacency.visit 0 = [0, 2, 1] := by
  intro g g'
  have hpreorder : preorder? g.successors g.size 0 = some [0, 1, 3, 2] := by decide
  have hpreorder' : preorder? g'.successors g'.size 0 = some [0, 1, 2] := by decide
  exact ⟨fun depth hdepth => descend_of_le hpreorder hdepth, by decide,
    fun depth hdepth => descend_of_le hpreorder' hdepth, by decide⟩

end Digraph

end FlowBubbles
