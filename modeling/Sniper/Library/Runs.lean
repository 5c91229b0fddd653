/-! Runs of a step function that always answers: what holds in every state of a run, and of every step. -/

namespace Sniper

variable {σ : Type u} {ℓ : Type v}

/-- The first state of the run has the property, and every one after it. -/
def AllStates (step : σ → ℓ → σ) (good : σ → Prop) : σ → List ℓ → Prop
  | state, [] => good state
  | state, label :: rest => good state ∧ AllStates step good (step state label) rest

/-- Every step of the run has the property in the state it is taken in. -/
def AllSteps (step : σ → ℓ → σ) (allowed : σ → ℓ → Prop) : σ → List ℓ → Prop
  | _, [] => True
  | state, label :: rest => allowed state label ∧ AllSteps step allowed (step state label) rest

variable {step : σ → ℓ → σ} {good invariant : σ → Prop} {allowed : σ → ℓ → Prop} {state : σ} {labels : List ℓ}

/-- Where `allowed` tells when one step keeps a property, it tells when a run does. -/
theorem allStates_iff_allSteps
    (preserved : ∀ state label, invariant state → good state → allowed state label → invariant (step state label))
    (exact_step : ∀ state label, invariant state → good state → (good (step state label) ↔ allowed state label))
    (holds : invariant state) (starts : good state) :
    AllStates step good state labels ↔ AllSteps step allowed state labels := by
  induction labels generalizing state with
  | nil => exact ⟨fun _ => trivial, fun _ => starts⟩
  | cons label rest ih =>
    have now := exact_step state label holds starts
    constructor
    · rintro ⟨_, later⟩
      have next : good (step state label) := by
        cases rest with
        | nil => exact later
        | cons _ _ => exact later.1
      have may := now.mp next
      exact ⟨may, (ih (preserved state label holds starts may) next).mp later⟩
    · rintro ⟨may, later⟩
      exact ⟨starts, (ih (preserved state label holds starts may) (now.mpr may)).mpr later⟩

theorem allStates_iff_of_exact (exact_step : ∀ state label, good state → (good (step state label) ↔ allowed state label))
    (starts : good state) : AllStates step good state labels ↔ AllSteps step allowed state labels :=
  allStates_iff_allSteps (fun state label holds _ may => (exact_step state label holds).mpr may)
    (fun state label holds _ => exact_step state label holds) starts starts

theorem allStates_of_preserved (preserved : ∀ state label, invariant state → invariant (step state label))
    (holds : invariant state) (labels : List ℓ) : AllStates step invariant state labels := by
  induction labels generalizing state with
  | nil => exact holds
  | cons label rest ih => exact ⟨holds, ih (preserved state label holds)⟩

theorem AllSteps.allStates
    (preserved : ∀ state label, invariant state → allowed state label → invariant (step state label))
    (steps : AllSteps step allowed state labels) (holds : invariant state) : AllStates step invariant state labels := by
  induction labels generalizing state with
  | nil => exact holds
  | cons label rest ih => exact ⟨holds, ih steps.2 (preserved state label holds steps.1)⟩

theorem AllSteps.congr {assumed other : σ → ℓ → Prop} (assumptions : AllSteps step assumed state labels)
    (preserved : ∀ state label, invariant state → assumed state label → invariant (step state label))
    (agree : ∀ state label, invariant state → assumed state label → (allowed state label ↔ other state label))
    (holds : invariant state) : AllSteps step allowed state labels ↔ AllSteps step other state labels := by
  induction labels generalizing state with
  | nil => rfl
  | cons label rest ih =>
    obtain ⟨now, later⟩ := assumptions
    exact and_congr (agree state label holds now) (ih later (preserved state label holds now))

theorem allSteps_congr {other : σ → ℓ → Prop} (preserved : ∀ state label, invariant state → invariant (step state label))
    (agree : ∀ state label, invariant state → (allowed state label ↔ other state label)) (holds : invariant state) :
    AllSteps step allowed state labels ↔ AllSteps step other state labels := by
  induction labels generalizing state with
  | nil => rfl
  | cons label rest ih => exact and_congr (agree state label holds) (ih (preserved state label holds))

theorem AllStates.mono {better : σ → Prop} (states : AllStates step good state labels) (weaker : ∀ state, good state → better state) :
    AllStates step better state labels := by
  induction labels generalizing state with
  | nil => exact weaker state states
  | cons label rest ih => exact ⟨weaker state states.1, ih states.2⟩

end Sniper
