namespace CommandBlocks

variable {σ ρ : Type}

/-- What a loop has come to after so many steps: the state that it is in, or its result once it has
    ended. -/
def afterSteps (step : σ → σ ⊕ ρ) : Nat → σ → σ ⊕ ρ
  | 0, state => .inl state
  | n + 1, state =>
    match step state with
    | .inl next => afterSteps step n next
    | .inr result => .inr result

/-- One step of a loop uses up some of a weight and leads to the same result, or ends the loop with
    that result. -/
def StepsToward (weight : σ → Nat) (result : σ → ρ) (state : σ) : σ ⊕ ρ → Prop
  | .inl next => weight next < weight state ∧ result next = result state
  | .inr last => last = result state

/-- A loop whose steps all use up some of a weight has ended after more steps than the weight of its
    first state, with the result that belongs to this state. -/
theorem afterSteps_eq_inr {step : σ → σ ⊕ ρ} {weight : σ → Nat} {result : σ → ρ}
    (hstep : ∀ state, StepsToward weight result state (step state)) {n : Nat} {state : σ}
    (hn : weight state < n) : afterSteps step n state = .inr (result state) := by
  induction n generalizing state with
  | zero => exact absurd hn (Nat.not_lt_zero _)
  | succ n ih =>
    have htoward := hstep state
    rw [afterSteps]
    cases hnext : step state with
    | inl next =>
      rw [hnext] at htoward
      obtain ⟨hweight, hresult⟩ := htoward
      rw [← hresult]
      exact ih (by omega)
    | inr last =>
      rw [hnext] at htoward
      exact congrArg Sum.inr htoward

end CommandBlocks
