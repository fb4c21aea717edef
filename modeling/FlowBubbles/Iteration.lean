/-!
# Bounded iteration

The graph searches are machines: a state, a step, and a test for the states at which the machine
halts. `iterate` runs a machine until it halts or its fuel is used up. `iterate_invariant` carries
a property along a run, and `halted_iterate` says that a run whose fuel covers a decreasing measure
halts.
-/

namespace FlowBubbles

variable {σ : Type}

/-- Repeats `step` until `halted` holds, at most `fuel` times. -/
@[specialize] def iterate (halted : σ → Bool) (step : σ → σ) : Nat → σ → σ
  | 0, s => s
  | fuel + 1, s => if halted s then s else iterate halted step fuel (step s)

theorem iterate_of_halted {halted : σ → Bool} {step : σ → σ} {s : σ} (h : halted s = true)
    (fuel : Nat) : iterate halted step fuel s = s := by
  cases fuel <;> simp [iterate, h]

theorem iterate_succ {halted : σ → Bool} {step : σ → σ} {s : σ} (h : halted s = false)
    (fuel : Nat) : iterate halted step (fuel + 1) s = iterate halted step fuel (step s) := by
  simp [iterate, h]

/-- What every step keeps, a run keeps. -/
theorem iterate_invariant {halted : σ → Bool} {step : σ → σ} {P : σ → Prop}
    (keeps : ∀ s, halted s = false → P s → P (step s)) :
    ∀ (fuel : Nat) (s : σ), P s → P (iterate halted step fuel s)
  | 0, _, h => h
  | fuel + 1, s, h => by
    unfold iterate
    split
    · exact h
    · rename_i hs
      exact iterate_invariant keeps fuel _ (keeps s (by simpa using hs) h)

/-- A run halts when its fuel covers a measure that every step lowers. -/
theorem halted_iterate {halted : σ → Bool} {step : σ → σ} {P : σ → Prop} {measure : σ → Nat}
    (keeps : ∀ s, halted s = false → P s → P (step s))
    (lowers : ∀ s, halted s = false → P s → measure (step s) < measure s) :
    ∀ (fuel : Nat) (s : σ), P s → measure s ≤ fuel → halted (iterate halted step fuel s) = true
  | 0, s, h, hm => by
    rw [iterate]
    cases hs : halted s with
    | true => rfl
    | false =>
      have := lowers s hs h
      omega
  | fuel + 1, s, h, hm => by
    unfold iterate
    split
    · assumption
    · rename_i hs
      have hs : halted s = false := by simpa using hs
      have := lowers s hs h
      exact halted_iterate keeps lowers fuel _ (keeps s hs h) (by omega)

end FlowBubbles
