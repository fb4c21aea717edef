import FlowBubbles.Digraph.StrongComponents
import FlowBubbles.Proofs.DepthFirst.Report
import FlowBubbles.Proofs.StrongComponents.Settled

/-!
# What the gathering keeps

While the components are gathered, every node that was met is on the stack or in a settled
component. A node of the stack reaches a node of the path that was discovered no later, and is
reached from every node of the path that was discovered no later. The low point of a node of the
path is the discovery index of a node of the stack that it reaches. `Gathering.Sound` says so; the
other statements are what one event makes of it.
-/

namespace FlowBubbles

namespace StrongComponents

open DepthFirst

variable {a : Adjacency} {disc : NodeMap Nat} {m : Nat → Mark} {s : Gathering}
  {v w x y z n : Nat} {S T : List Nat}

/-- The nodes of the components so far. -/
def Gathering.closed (s : Gathering) : List Nat := s.components.toList.flatten

/-- The state of the gathering fits the marks of the search. -/
structure Gathering.Sound (a : Adjacency) (disc : NodeMap Nat) (m : Nat → Mark) (s : Gathering) :
    Prop where
  settled : Settled a disc.get s.components.toList
  sorted : s.stack.Pairwise fun x y => disc.get y < disc.get x
  stacked_iff : ∀ x, s.stacked.get x = true ↔ x ∈ s.stack
  met_iff : ∀ x, m x ≠ .fresh ↔ x ∈ s.stack ∨ x ∈ s.closed
  not_closed : ∀ x ∈ s.stack, x ∉ s.closed
  mem_stack : ∀ x, m x = .active → x ∈ s.stack
  reaches_path : ∀ x ∈ s.stack, ∃ y, m y = .active ∧ disc.get y ≤ disc.get x ∧ a.Reaches x y
  path_reaches : ∀ y, m y = .active → ∀ x ∈ s.stack, disc.get y ≤ disc.get x → a.Reaches y x
  low_le : ∀ x, m x = .active → s.low.get x ≤ disc.get x
  low_eq : ∀ x, m x = .active → ∃ z ∈ s.stack, s.low.get x = disc.get z ∧ a.Reaches x z

/-- The parent of a finished node takes over its low point. -/
def Gathering.passUp (s : Gathering) (w : Nat) : Option Nat → Gathering
  | none => s
  | some v => s.lower v (s.low.get w)

namespace Gathering

variable {p : Option Nat}

theorem read_finish : s.read disc (.finish w p) =
    if s.low.get w = disc.get w then (s.passUp w p).close w else s.passUp w p := by
  cases p <;> rfl

@[simp] theorem stack_passUp : (s.passUp w p).stack = s.stack := by cases p <;> rfl

theorem low_passUp : (s.passUp w p).low.get x =
    if p = some x then min (s.low.get x) (s.low.get w) else s.low.get x := by
  cases p with
  | none => simp [passUp]
  | some v =>
    by_cases hv : x = v
    · simp [passUp, lower, hv]
    · simp [passUp, lower, hv, Ne.symm hv]

theorem low_read_finish : (s.read disc (.finish w p)).low.get x =
    if p = some x then min (s.low.get x) (s.low.get w) else s.low.get x := by
  rw [read_finish, ← low_passUp]
  split <;> rfl

end Gathering

namespace Gathering.Sound

variable {p : Option Nat}

/-- Before the first event there is nothing on the stack and no component. -/
theorem start : Sound a disc (fun _ => .fresh) .start := by
  constructor <;> simp [Gathering.start, Gathering.closed, Settled.nil]

/-! ## One event -/

/-- A node is put on the stack when it is discovered. -/
theorem discover (h : Sound a disc m s) (hw : m w = .fresh)
    (hlater : ∀ x, m x ≠ .fresh → disc.get x < disc.get w)
    (hpath : ∀ y, m y = .active → a.Reaches y w) :
    Sound a disc (Function.update m w .active) (s.read disc (.discover w)) := by
  have hmet : ∀ x ∈ s.stack, m x ≠ .fresh := fun x hx => (h.met_iff x).2 (.inl hx)
  have hwstack : w ∉ s.stack := fun hx => hmet w hx hw
  have hwclosed : w ∉ s.closed := fun hx => (h.met_iff w).2 (.inr hx) hw
  have hold : ∀ {y}, Function.update m w .active y = .active → y ≠ w → m y = .active :=
    fun h hne => (update_active_eq_active_iff.1 h).resolve_left hne
  refine ⟨h.settled, ?_, ?_, ?_, ?_, ?_, ?_, ?_, ?_, ?_⟩
  all_goals simp only [Gathering.read, Gathering.closed, List.mem_cons, List.pairwise_cons]
  · exact ⟨fun x hx => hlater x (hmet x hx), h.sorted⟩
  · intro x
    by_cases hx : x = w <;> simp [hx, h.stacked_iff]
  · intro x
    by_cases hx : x = w
    · simp [hx]
    · rw [Function.update_of_ne hx, h.met_iff]
      simp [hx, Gathering.closed]
  · rintro x (rfl | hx)
    · exact hwclosed
    · exact h.not_closed x hx
  · intro x hx
    by_cases hxw : x = w
    · exact .inl hxw
    · exact .inr (h.mem_stack x (hold hx hxw))
  · rintro x (rfl | hx)
    · exact ⟨x, by simp, Nat.le_refl _, .refl x⟩
    · obtain ⟨y, hy, hle, hxy⟩ := h.reaches_path x hx
      have hyw : y ≠ w := fun h => by simp [h, hw] at hy
      exact ⟨y, by rwa [Function.update_of_ne hyw], hle, hxy⟩
  · intro y hy x hx hle
    by_cases hyw : y = w
    · subst hyw
      rcases hx with rfl | hx
      · exact .refl x
      · have := hlater x (hmet x hx)
        omega
    · rcases hx with rfl | hx
      · exact hpath y (hold hy hyw)
      · exact h.path_reaches y (hold hy hyw) x hx hle
  · intro x hx
    by_cases hxw : x = w
    · simp [hxw]
    · simpa [hxw] using h.low_le x (hold hx hxw)
  · intro x hx
    by_cases hxw : x = w
    · subst hxw
      exact ⟨x, .inl rfl, by simp, .refl x⟩
    · obtain ⟨z, hz, hlow, hxz⟩ := h.low_eq x (hold hx hxw)
      exact ⟨z, .inr hz, by simpa [hxw] using hlow, hxz⟩

/-- The low point of a node of the path may be lowered to the index of a stacked node that it
reaches. -/
theorem lower (h : Sound a disc m s) (hz : z ∈ s.stack) (hvz : a.Reaches v z) :
    Sound a disc m (s.lower v (disc.get z)) := by
  refine ⟨h.settled, h.sorted, h.stacked_iff, h.met_iff, h.not_closed, h.mem_stack, h.reaches_path,
    h.path_reaches, ?_, ?_⟩
  · intro x hx
    have := h.low_le x hx
    by_cases hxv : x = v
    · subst hxv
      simp only [Gathering.lower, NodeMap.get_set, if_true]
      omega
    · simpa [Gathering.lower, hxv] using this
  · intro x hx
    obtain ⟨z', hz', hlow, hxz'⟩ := h.low_eq x hx
    by_cases hxv : x = v
    · subst hxv
      simp only [Gathering.lower, NodeMap.get_set, if_true]
      -- the lower of the two indices counts
      rcases Nat.le_total (s.low.get x) (disc.get z) with hle | hle
      · exact ⟨z', hz', by omega, hxz'⟩
      · exact ⟨z, hz, by omega, hvz⟩
    · exact ⟨z', hz', by simpa [Gathering.lower, hxv] using hlow, hxz'⟩

/-- A finished node stays on the stack if it reaches a node below it there. -/
theorem leave (h : Sound a disc m s) (hw : m w = .active) (hz : z ∈ s.stack)
    (hlt : disc.get z < disc.get w) (hwz : a.Reaches w z) :
    Sound a disc (Function.update m w .done) s := by
  have hold : ∀ {y}, Function.update m w .done y = .active → m y = .active := fun hy =>
    (update_done_eq_active_iff.1 hy).2
  refine ⟨h.settled, h.sorted, h.stacked_iff, ?_, h.not_closed,
    fun x hx => h.mem_stack x (hold hx), ?_, fun y hy => h.path_reaches y (hold hy),
    fun x hx => h.low_le x (hold hx), fun x hx => h.low_eq x (hold hx)⟩
  · intro x
    rw [← h.met_iff]
    by_cases hxw : x = w
    · simp [hxw, hw]
    · rw [Function.update_of_ne hxw]
  · intro x hx
    obtain ⟨y, hy, hle, hxy⟩ := h.reaches_path x hx
    by_cases hyw : y = w
    · -- what reached the path at `w` now reaches it further down
      subst hyw
      obtain ⟨y', hy', hle', hzy'⟩ := h.reaches_path z hz
      have hne : y' ≠ y := by
        intro h
        rw [h] at hle'
        omega
      exact ⟨y', update_done_eq_active_iff.2 ⟨hne, hy'⟩, by omega, (hxy.trans hwz).trans hzy'⟩
    · exact ⟨y, update_done_eq_active_iff.2 ⟨hyw, hy⟩, hle, hxy⟩

/-! ## Closing a component -/

/-- The part of the stack from its top `T` down to `w` is taken off and becomes a component. -/
theorem close_eq (h : Sound a disc m s) (hstack : s.stack = T ++ w :: S) :
    s.close w =
      { s with
        stack := S
        stacked := (T ++ [w]).foldl (fun m x => m.set x false) s.stacked
        components := s.components.push (T ++ [w]) } := by
  have hT : ∀ x ∈ T, (x != w) = true := by
    intro x hx
    have hsorted := h.sorted
    rw [hstack, List.pairwise_append] at hsorted
    have hlt := hsorted.2.2 x hx w List.mem_cons_self
    have hne : x ≠ w := fun heq => by simp [heq] at hlt
    simpa using hne
  have htake : s.stack.takeWhile (· != w) = T := by
    rw [hstack, List.takeWhile_append_of_pos hT]
    simp
  have hdrop : s.stack.dropWhile (· != w) = w :: S := by
    rw [hstack, List.dropWhile_append_of_pos hT]
    simp
  rw [Gathering.close, htake, hdrop]
  rfl

/-- What lies above a node of the path on the stack, up to the end of the path, and whose edges lead
nowhere else but to closed components, is a strongly connected component. -/
theorem mutual_of_top (h : Sound a disc m s) (hw : m w = .active) (hstack : s.stack = T ++ w :: S)
    (hT : ∀ x ∈ T, m x ≠ .active)
    (hsucc : ∀ x ∈ T ++ [w], ∀ y ∈ a.succ x, y ∈ T ++ [w] ∨ y ∈ s.closed) (hx : x ∈ T ++ [w]) :
    a.Mutual x w := by
  have hxstack : x ∈ s.stack := by
    rw [hstack, List.append_cons]
    exact List.mem_append_left _ hx
  have hsorted := h.sorted
  rw [hstack, List.pairwise_append] at hsorted
  have hle : disc.get w ≤ disc.get x := by
    rcases List.mem_append.1 hx with hx | hx
    · exact Nat.le_of_lt (hsorted.2.2 x hx w List.mem_cons_self)
    · rw [List.mem_singleton.1 hx]
  refine ⟨?_, h.path_reaches w hw x hxstack hle⟩
  obtain ⟨y, hy, -, hxy⟩ := h.reaches_path x hxstack
  have hstay : y ∈ T ++ [w] ∨ y ∈ s.closed := by
    refine hxy.mem_of_closed (S := fun x => x ∈ T ++ [w] ∨ x ∈ s.closed) ?_ (.inl hx)
    rintro x y (hx | hx) hxy
    · exact hsucc x hx y hxy
    · exact .inr (h.settled.succ_mem x hx y hxy)
  -- the node of the path that `x` reaches is on the stack, so it is `w`
  have hyC := hstay.resolve_right (h.not_closed y (h.mem_stack y hy))
  rcases List.mem_append.1 hyC with hyT | hyw
  · exact absurd hy (hT y hyT)
  · rwa [List.mem_singleton.1 hyw] at hxy

/-- A finished node closes a component if no edge leads from it, or from what lies above it on the
stack, to what lies below it. -/
theorem close (h : Sound a disc m s) (hw : m w = .active) (hstack : s.stack = T ++ w :: S)
    (hT : ∀ x ∈ T, m x ≠ .active)
    (hsucc : ∀ x ∈ T ++ [w], ∀ y ∈ a.succ x, y ∈ T ++ [w] ∨ y ∈ s.closed) :
    Sound a disc (Function.update m w .done) (s.close w) := by
  have hmutual := fun x hx => h.mutual_of_top (x := x) hw hstack hT hsucc hx
  have hsplit : s.stack = (T ++ [w]) ++ S := by simp [hstack]
  have hsorted := h.sorted
  rw [hsplit, List.pairwise_append] at hsorted
  obtain ⟨hsortedC, hsortedS, hbelow⟩ := hsorted
  have hmem : ∀ x, x ∈ s.stack ↔ x ∈ T ++ [w] ∨ x ∈ S := by
    intro x
    rw [hsplit, List.mem_append]
  have hSlt : ∀ x ∈ S, disc.get x < disc.get w := fun x hx => hbelow w (by simp) x hx
  have hSC : ∀ x ∈ S, x ∉ T ++ [w] := by
    intro x hx hxC
    have := hbelow x hxC x hx
    omega
  -- the path goes on below `w`
  have hold : ∀ {y}, Function.update m w .done y = .active → m y = .active ∧ y ∈ S :=
    fun {y} hy => by
      obtain ⟨hyw, hy⟩ := update_done_eq_active_iff.1 hy
      refine ⟨hy, ((hmem y).1 (h.mem_stack y hy)).resolve_left fun hyC => ?_⟩
      rcases List.mem_append.1 hyC with hyT | hyC
      · exact hT y hyT hy
      · exact hyw (List.mem_singleton.1 hyC)
  rw [h.close_eq hstack]
  refine ⟨?_, hsortedS, ?_, ?_, ?_, fun x hx => (hold hx).2, ?_, ?_,
    fun x hx => h.low_le x (hold hx).1, ?_⟩
  · rw [Array.toList_push]
    refine h.settled.snoc (by simp) hsortedC
      (fun x hx y hy => (hmutual x hx).trans (hmutual y hy).symm) hsucc fun x hx => ?_
    exact h.not_closed x ((hmem x).2 (.inl hx))
  · intro x
    rw [NodeMap.get_foldl_set]
    by_cases hxC : x ∈ T ++ [w]
    · simpa [hxC] using fun hx => hSC x hx hxC
    · simp [hxC, h.stacked_iff, hmem]
  · intro x
    have hmet := h.met_iff x
    by_cases hxw : x = w
    · simp [hxw, Gathering.closed]
    · rw [Function.update_of_ne hxw, hmet, hmem]
      simp only [Gathering.closed, Array.toList_push, List.flatten_append, List.flatten_singleton,
        List.mem_append]
      tauto
  · intro x hx
    simp only [Gathering.closed, Array.toList_push, List.flatten_append, List.flatten_singleton,
      List.mem_append, not_or]
    exact ⟨h.not_closed x ((hmem x).2 (.inr hx)), by simpa using hSC x hx⟩
  · intro x hx
    obtain ⟨y, hy, hle, hxy⟩ := h.reaches_path x ((hmem x).2 (.inr hx))
    have hyw : y ≠ w := by
      intro h
      have := hSlt x hx
      rw [h] at hle
      omega
    exact ⟨y, update_done_eq_active_iff.2 ⟨hyw, hy⟩, hle, hxy⟩
  · intro y hy x hx
    exact h.path_reaches y (hold hy).1 x ((hmem x).2 (.inr hx))
  · intro x hx
    -- a low point of the path lies below `w`, hence not in the component
    obtain ⟨hx, hxS⟩ := hold hx
    obtain ⟨z, hz, hlow, hxz⟩ := h.low_eq x hx
    refine ⟨z, ((hmem z).1 hz).resolve_left fun hzC => ?_, hlow, hxz⟩
    have := h.low_le x hx
    have := hbelow z hzC x hxS
    omega

/-! ## Finishing a node -/

/-- The parent of a finished node takes over its low point. -/
theorem passUp (h : Sound a disc m s) (hw : m w = .active)
    (hp : ∀ v, p = some v → a.Reaches v w) : Sound a disc m (s.passUp w p) := by
  cases p with
  | none => exact h
  | some v =>
    obtain ⟨z, hz, hlow, hwz⟩ := h.low_eq w hw
    rw [Gathering.passUp, hlow]
    exact h.lower hz ((hp v rfl).trans hwz)

/-- When a node is finished, either its component is closed or it stays on the stack with what lies
above it. -/
theorem finish (h : Sound a disc m s) (hw : m w = .active)
    (hstack : s.stack = T ++ w :: S) (hT : ∀ x ∈ T, m x ≠ .active)
    (hsucc : ∀ x ∈ T ++ [w], ∀ y ∈ a.succ x,
      m y ≠ .fresh ∧ (y ∈ S → s.low.get w ≤ disc.get y))
    (hp : ∀ v, p = some v → v ≠ w ∧ a.Reaches v w) :
    Sound a disc (Function.update m w .done) (s.read disc (.finish w p)) ∧
      ((s.read disc (.finish w p)).stack = S ∨
        (s.read disc (.finish w p)).stack = (T ++ [w]) ++ S) := by
  have hup := h.passUp hw fun v hv => (hp v hv).2
  have hlow : (s.passUp w p).low.get w = s.low.get w := by
    rw [Gathering.low_passUp, if_neg fun hv => (hp w hv).1 rfl]
  have hupstack : (s.passUp w p).stack = T ++ w :: S := by rw [Gathering.stack_passUp, hstack]
  rw [Gathering.read_finish]
  split
  · -- the low point is the index of `w`, so no edge leads below `w` on the stack
    rename_i heq
    have hsorted := h.sorted
    rw [hstack, List.pairwise_append, List.pairwise_cons] at hsorted
    refine ⟨hup.close hw hupstack hT fun x hx y hy => ?_, .inl (by rw [hup.close_eq hupstack])⟩
    obtain ⟨hmet, hle⟩ := hsucc x hx y hy
    rcases (hup.met_iff y).1 hmet with hmem | hclosed
    · rw [hupstack, List.append_cons, List.mem_append] at hmem
      refine .inl (hmem.resolve_right fun hyS => ?_)
      have := hle hyS
      have := hsorted.2.1.1 y hyS
      omega
    · exact .inr hclosed
  · -- the low point belongs to a node below `w`, with which `w` stays on the stack
    rename_i hne
    have hle := hup.low_le w hw
    obtain ⟨z, hz, hlowz, hwz⟩ := hup.low_eq w hw
    rw [hlow] at hle hlowz
    exact ⟨hup.leave hw hz (by omega) hwz, .inr (by simp [hstack])⟩

end Gathering.Sound

end StrongComponents

end FlowBubbles
