import FlowBubbles.Iteration
import FlowBubbles.NodeMap

/-!
# Checked computations

A checked computation gives nothing if it reads or writes a table outside its bounds, if it
subtracts more than there is, or if a loop of it does not end. So a program whose checked form gives
a result does none of this. The lemmas carry a property along a fold (`foldlM_eq_some`) and along a
loop that follows a machine until it halts (`loop_eq_some`).
-/

namespace FlowBubbles.Checked

/-! ## Tables -/

/-- A table with a fixed number of cells. -/
structure Table (α : Type) where
  size : Nat
  cells : NodeMap α

namespace Table

variable {α : Type} {n v : Nat}

/-- The table of `n` equal cells. -/
def replicate (n : Nat) (a : α) : Table α := ⟨n, .const a⟩

/-- Reads a cell. -/
def get? (t : Table α) (v : Nat) : Option α := if v < t.size then some (t.cells.get v) else none

/-- Writes a cell. -/
def set? (t : Table α) (v : Nat) (a : α) : Option (Table α) :=
  if v < t.size then some ⟨t.size, t.cells.set v a⟩ else none

/-- Writes to each listed cell the position of its index in the list. -/
def number? (t : Table Nat) (order : List Nat) : Option (Table Nat) :=
  order.zipIdx.foldlM (fun t (v, i) => t.set? v i) t

variable {m : NodeMap α}

theorem get?_of_lt (h : v < n) : (⟨n, m⟩ : Table α).get? v = some (m.get v) := if_pos h

theorem set?_of_lt (h : v < n) (a : α) :
    (⟨n, m⟩ : Table α).set? v a = some ⟨n, m.set v a⟩ := if_pos h

end Table

/-! ## Differences -/

/-- The difference of two numbers, if it is not below zero. -/
def sub? (x y : Nat) : Option Nat := if y ≤ x then some (x - y) else none

theorem sub?_of_le {x y : Nat} (h : y ≤ x) : sub? x y = some (x - y) := if_pos h

/-! ## Errors -/

section

variable {ε α α' β β' : Type}

/-- Goes on with the value of a checked computation that may fail with an error. -/
def andThen (r : Option (Except ε α)) (f : α → Option (Except ε α')) : Option (Except ε α') := do
  match ← r with
  | .error e => return .error e
  | .ok a => f a

@[simp] theorem andThen_ok (a : α) (f : α → Option (Except ε α')) :
    andThen (some (.ok a)) f = f a := rfl

/-- Whether a checked computation comes to a result, which is the same error as that of a
computation without checks, or a value in the relation `R` to its value. -/
def Matches (R : α → β → Prop) (r : Option (Except ε α)) : Except ε β → Prop
  | .error e => r = some (.error e)
  | .ok b => ∃ a, r = some (.ok a) ∧ R a b

theorem Matches.andThen {R : α → β → Prop} {R' : α' → β' → Prop} {r : Option (Except ε α)}
    {s : Except ε β} {f : α → Option (Except ε α')} {g : β → Except ε β'} (h : Matches R r s)
    (hnext : ∀ a b, s = .ok b → R a b → Matches R' (f a) (g b)) :
    Matches R' (Checked.andThen r f) (s >>= g) := by
  cases s with
  | error e =>
    have hr : r = some (.error e) := h
    rw [hr]
    rfl
  | ok b =>
    obtain ⟨a, rfl, hab⟩ := h
    exact hnext a b rfl hab

end

/-! ## Lists -/

section

variable {α β σ τ : Type}

/-- The elements that pass a checked test. -/
def filter? (p : α → Option Bool) : List α → Option (List α)
  | [] => some []
  | x :: l => do
    let keep ← p x
    let l ← filter? p l
    return if keep then x :: l else l

theorem filter?_eq_some {p : α → Option Bool} {q : α → Bool} {l : List α}
    (h : ∀ x ∈ l, p x = some (q x)) : filter? p l = some (l.filter q) := by
  induction l with
  | nil => rfl
  | cons x l ih =>
    obtain ⟨hx, hl⟩ := List.forall_mem_cons.1 h
    rw [filter?, hx, ih hl, List.filter_cons]
    rfl

theorem mapM_eq_some {f : α → Option β} {g : α → β} {l : List α}
    (h : ∀ x ∈ l, f x = some (g x)) : l.mapM f = some (l.map g) := by
  induction l with
  | nil => rfl
  | cons x l ih =>
    obtain ⟨hx, hl⟩ := List.forall_mem_cons.1 h
    rw [List.mapM_cons, hx, ih hl]
    rfl

/-- A checked fold does what a fold does if each step does, and the property that this needs of the
state and of the rest of the list is kept. -/
theorem foldlM_eq_some {f : σ → α → Option σ} {g : τ → α → τ} {e : τ → σ}
    {P : List α → τ → Prop}
    (h : ∀ x rest t, P (x :: rest) t → f (e t) x = some (e (g t x)) ∧ P rest (g t x)) :
    ∀ (l : List α) (t : τ), P l t →
      l.foldlM f (e t) = some (e (l.foldl g t)) ∧ P [] (l.foldl g t)
  | [], _, ht => ⟨rfl, ht⟩
  | x :: l, t, ht => by
    obtain ⟨hstep, hrest⟩ := h x l t ht
    rw [List.foldlM_cons, hstep, List.foldl_cons]
    exact foldlM_eq_some h l (g t x) hrest

/-! ## Loops -/

/-- Repeats a checked step until `halted` holds, at most `fuel` times. -/
def loopWithin (halted : σ → Bool) (step : σ → Option σ) : Nat → σ → Option σ
  | 0, s => if halted s then some s else none
  | fuel + 1, s =>
    if halted s then some s
    else do
      let s ← step s
      loopWithin halted step fuel s

open Classical in
/-- Repeats a checked step until `halted` holds. A loop that does not end gives nothing. -/
noncomputable def loop (halted : σ → Bool) (step : σ → Option σ) (s : σ) : Option σ :=
  if h : ∃ fuel, (loopWithin halted step fuel s).isSome then loopWithin halted step h.choose s
  else none

variable {halted : σ → Bool} {step : σ → Option σ} {s s' r : σ} {fuel m n : Nat}

theorem loopWithin_of_halted (h : halted s = true) (fuel : Nat) :
    loopWithin halted step fuel s = some s := by
  cases fuel <;> exact if_pos h

theorem loopWithin_succ (hs : halted s = false) (hstep : step s = some s') (fuel : Nat) :
    loopWithin halted step (fuel + 1) s = loopWithin halted step fuel s' := by
  rw [loopWithin, hs, hstep]
  rfl

/-- More fuel does not change the end of a loop. -/
theorem loopWithin_of_le (h : loopWithin halted step m s = some r) (hle : m ≤ n) :
    loopWithin halted step n s = some r := by
  induction m generalizing n s with
  | zero =>
    rw [loopWithin] at h
    split at h
    · rename_i hs
      rw [loopWithin_of_halted hs, h]
    · cases h
  | succ m ih =>
    obtain ⟨n, rfl⟩ := Nat.exists_eq_succ_of_ne_zero (Nat.ne_of_gt (Nat.lt_of_lt_of_le m.succ_pos hle))
    rw [loopWithin] at h ⊢
    split at h
    · rename_i hs
      rw [if_pos hs, h]
    · rename_i hs
      obtain ⟨s', hstep, hrest⟩ := Option.bind_eq_some_iff.1 h
      rw [if_neg hs, hstep]
      exact ih hrest (Nat.le_of_succ_le_succ hle)

/-- A loop ends if some number of steps suffices. -/
theorem loop_eq_some_iff :
    loop halted step s = some r ↔ ∃ fuel, loopWithin halted step fuel s = some r := by
  unfold loop
  constructor
  · intro h
    split at h
    · exact ⟨_, h⟩
    · cases h
  · rintro ⟨n, hn⟩
    have hends : ∃ fuel, (loopWithin halted step fuel s).isSome := ⟨n, by rw [hn]; rfl⟩
    obtain ⟨r', hr'⟩ := Option.isSome_iff_exists.1 hends.choose_spec
    rw [dif_pos hends, hr']
    have hr := loopWithin_of_le hn (Nat.le_max_left n hends.choose)
    rw [loopWithin_of_le hr' (Nat.le_max_right n hends.choose)] at hr
    exact hr

theorem loop_of_halted (h : halted s = true) : loop halted step s = some s :=
  loop_eq_some_iff.2 ⟨0, loopWithin_of_halted h 0⟩

/-- A loop goes on after a step. -/
theorem loop_of_step (hs : halted s = false) (hstep : step s = some s')
    (hrest : loop halted step s' = some r) : loop halted step s = some r := by
  obtain ⟨fuel, hfuel⟩ := loop_eq_some_iff.1 hrest
  exact loop_eq_some_iff.2 ⟨fuel + 1, (loopWithin_succ hs hstep fuel).trans hfuel⟩

/-- A loop whose steps are those of a machine ends with the state at which the machine halts. -/
theorem loop_eq_some {halted' : τ → Bool} {step' : τ → τ} {e : τ → σ} {P : τ → Prop}
    (hhalted : ∀ t, halted (e t) = halted' t)
    (hstep : ∀ t, halted' t = false → P t → step (e t) = some (e (step' t)))
    (keeps : ∀ t, halted' t = false → P t → P (step' t)) :
    ∀ (fuel : Nat) (t : τ), P t → halted' (iterate halted' step' fuel t) = true →
      loop halted step (e t) = some (e (iterate halted' step' fuel t))
  | fuel, t, ht, hend => by
    cases hs : halted' t with
    | true =>
      rw [iterate_of_halted hs]
      exact loop_of_halted ((hhalted t).trans hs)
    | false =>
      cases fuel with
      | zero =>
        rw [iterate, hs] at hend
        cases hend
      | succ fuel =>
        rw [iterate_succ hs] at hend ⊢
        exact loop_of_step ((hhalted t).trans hs) (hstep t hs ht)
          (loop_eq_some hhalted hstep keeps fuel (step' t) (keeps t hs ht) hend)

end

namespace Table

variable {α : Type} {n : Nat} {order vs : List Nat}

/-- The same value is written to all listed cells. -/
theorem foldlM_set? (h : ∀ v ∈ vs, v < n) (a : α) (m : NodeMap α) :
    vs.foldlM (fun t v => t.set? v a) (⟨n, m⟩ : Table α) =
      some ⟨n, vs.foldl (fun m v => m.set v a) m⟩ := by
  have hfold := foldlM_eq_some (e := fun m : NodeMap α => (⟨n, m⟩ : Table α))
    (P := fun rest _ => ∀ v ∈ rest, v < n) (f := fun t v => t.set? v a)
    (g := fun m v => m.set v a) (fun v rest m hrest => ?_) vs m h
  · exact hfold.1
  · obtain ⟨hv, hrest⟩ := List.forall_mem_cons.1 hrest
    exact ⟨set?_of_lt hv _, hrest⟩

/-- The listed cells get their positions. -/
theorem number?_replicate (h : ∀ v ∈ order, v < n) (a : Nat) :
    (replicate n a).number? order = some ⟨n, .positions order a⟩ := by
  have hfold := foldlM_eq_some (e := fun m : NodeMap Nat => (⟨n, m⟩ : Table Nat))
    (P := fun rest _ => ∀ p ∈ rest, p.1 < n)
    (f := fun t (v, i) => t.set? v i) (g := fun m (v, i) => m.set v i)
    (fun p rest m hrest => ?_) order.zipIdx (.const a) ?_
  · exact hfold.1
  · obtain ⟨hp, hrest⟩ := List.forall_mem_cons.1 hrest
    exact ⟨set?_of_lt hp _, hrest⟩
  · intro p hp
    exact h p.1 (List.fst_mem_of_mem_zipIdx hp)

end Table

end FlowBubbles.Checked
