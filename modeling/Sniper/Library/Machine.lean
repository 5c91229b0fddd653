/-! A deterministic machine driven by labels, and the states its runs reach.

A step may stop the machine with a reason of type `ε`.  `Reach` collects the
states of all runs in which every taken step meets a guard on the state before
it; the guard `fun _ _ => True` gives the plain reachable states. -/

namespace Sniper

structure Machine (σ : Type u) (ℓ : Type v) (ε : Type w) where
  initial : σ → Prop
  step : σ → ℓ → Except ε σ

namespace Machine

variable {σ : Type u} {ℓ : Type v} {ε : Type w}

inductive Reach (machine : Machine σ ℓ ε) (guard : σ → ℓ → Prop) : σ → Prop where
  | initial {state : σ} : machine.initial state → Reach machine guard state
  | step {state next : σ} (label : ℓ) : Reach machine guard state → guard state label →
      machine.step state label = .ok next → Reach machine guard next

/-- Every state of every run. -/
def Reachable (machine : Machine σ ℓ ε) : σ → Prop :=
  machine.Reach fun _ _ => True

theorem Reach.invariant {machine : Machine σ ℓ ε} {guard : σ → ℓ → Prop} {state : σ}
    (invariant : σ → Prop)
    (initially : ∀ state, machine.initial state → invariant state)
    (preserved : ∀ state label next, invariant state → guard state label →
      machine.step state label = .ok next → invariant next)
    (reached : machine.Reach guard state) : invariant state := by
  induction reached with
  | initial starts => exact initially _ starts
  | step _ _ allowed stepped ih => exact preserved _ _ _ ih allowed stepped

/-- The state after a list of labels, if no step stops the machine. -/
def run (machine : Machine σ ℓ ε) : σ → List ℓ → Except ε σ
  | state, [] => .ok state
  | state, label :: rest =>
    match machine.step state label with
    | .ok next => machine.run next rest
    | .error reason => .error reason

/-- A run whose labels the guard lets pass in any state. -/
theorem Reach.run {machine : Machine σ ℓ ε} {guard : σ → ℓ → Prop} {start state : σ} {labels : List ℓ}
    (reached : machine.Reach guard start) (allowed : ∀ label ∈ labels, ∀ state, guard state label)
    (ran : machine.run start labels = .ok state) : machine.Reach guard state := by
  induction labels generalizing start with
  | nil => cases ran; exact reached
  | cons label rest ih =>
    cases stepped : machine.step start label with
    | error reason => simp [Machine.run, stepped] at ran
    | ok next =>
      simp only [Machine.run, stepped] at ran
      have passes := allowed label List.mem_cons_self start
      exact ih (.step label reached passes stepped)
        (fun label member => allowed label (List.mem_cons_of_mem _ member)) ran

theorem Reachable.run {machine : Machine σ ℓ ε} {start state : σ} {labels : List ℓ}
    (reached : machine.Reachable start) (ran : machine.run start labels = .ok state) :
    machine.Reachable state :=
  Reach.run reached (fun _ _ _ => trivial) ran

/-- The run ends in a state that passes the test, and the states before its steps pass another one. -/
def endsWith (machine : Machine σ ℓ ε) (during test : σ → Bool) : σ → List ℓ → Bool
  | state, [] => test state
  | state, label :: rest => during state &&
      match machine.step state label with
      | .ok next => machine.endsWith during test next rest
      | .error _ => false

theorem Reach.of_endsWith {machine : Machine σ ℓ ε} {guard : σ → ℓ → Prop} {during test : σ → Bool} {start : σ}
    {labels : List ℓ} (reached : machine.Reach guard start)
    (allowed : ∀ state label, during state = true → guard state label)
    (ends : machine.endsWith during test start labels = true) : ∃ state, machine.Reach guard state ∧ test state = true := by
  induction labels generalizing start with
  | nil => exact ⟨start, reached, ends⟩
  | cons label rest ih =>
    unfold endsWith at ends
    obtain ⟨passes, ends⟩ := Bool.and_eq_true_iff.mp ends
    split at ends
    case h_1 next stepped => exact ih (.step label reached (allowed start label passes) stepped) ends
    case h_2 => cases ends

/-- A property that steps preserve holds to the end of a run. -/
theorem run_invariant {machine : Machine σ ℓ ε} {start state : σ} {labels : List ℓ} (invariant : σ → Prop)
    (preserved : ∀ state label next, invariant state → machine.step state label = .ok next → invariant next)
    (holds : invariant start) (ran : machine.run start labels = .ok state) : invariant state := by
  induction labels generalizing start with
  | nil => cases ran; exact holds
  | cons label rest ih =>
    cases stepped : machine.step start label with
    | error reason => simp [Machine.run, stepped] at ran
    | ok next =>
      simp only [Machine.run, stepped] at ran
      exact ih (preserved _ _ _ holds stepped) ran

/-- Where each step of a kind takes something off a measure, the measure bounds the runs of such steps. -/
theorem run_length_add_le {machine : Machine σ ℓ ε} {moves : ℓ → Prop} {start state : σ} {labels : List ℓ}
    (invariant : σ → Prop) (measure : σ → Nat)
    (preserved : ∀ state label next, invariant state → machine.step state label = .ok next → invariant next)
    (lowers : ∀ state label next, invariant state → moves label → machine.step state label = .ok next →
      measure next < measure state)
    (holds : invariant start) (kind : ∀ label ∈ labels, moves label) (ran : machine.run start labels = .ok state) :
    labels.length + measure state ≤ measure start := by
  induction labels generalizing start with
  | nil =>
    cases ran
    exact Nat.le_of_eq (Nat.zero_add _)
  | cons label rest ih =>
    cases stepped : machine.step start label with
    | error reason => simp [Machine.run, stepped] at ran
    | ok next =>
      simp only [Machine.run, stepped] at ran
      have less := lowers start label next holds (kind label List.mem_cons_self) stepped
      have later := ih (preserved start label next holds stepped)
        (fun label member => kind label (List.mem_cons_of_mem _ member)) ran
      rw [List.length_cons]
      omega

theorem run_concat {machine : Machine σ ℓ ε} {start state next : σ} {labels : List ℓ} {label : ℓ}
    (ran : machine.run start labels = .ok state) (stepped : machine.step state label = .ok next) :
    machine.run start (labels ++ [label]) = .ok next := by
  induction labels generalizing start with
  | nil => cases ran; simp [Machine.run, stepped]
  | cons first rest ih =>
    cases stepped' : machine.step start first with
    | error reason => simp [Machine.run, stepped'] at ran
    | ok middle =>
      simp only [List.cons_append, Machine.run, stepped'] at ran ⊢
      exact ih ran

theorem run_concat_iff {machine : Machine σ ℓ ε} {start next : σ} {labels : List ℓ} {label : ℓ} :
    machine.run start (labels ++ [label]) = .ok next ↔
      ∃ state, machine.run start labels = .ok state ∧ machine.step state label = .ok next := by
  constructor
  · intro ran
    induction labels generalizing start with
    | nil =>
      refine ⟨start, rfl, ?_⟩
      cases stepped : machine.step start label with
      | error reason => simp [Machine.run, stepped] at ran
      | ok state => simpa [Machine.run, stepped] using ran
    | cons first rest ih =>
      cases stepped : machine.step start first with
      | error reason => simp [Machine.run, stepped] at ran
      | ok middle =>
        simp only [List.cons_append, Machine.run, stepped] at ran ⊢
        exact ih ran
  · intro ⟨state, ran, stepped⟩
    exact run_concat ran stepped

theorem Reachable.exists_run {machine : Machine σ ℓ ε} {state : σ} (reached : machine.Reachable state) :
    ∃ start labels, machine.initial start ∧ machine.run start labels = .ok state := by
  induction reached with
  | initial starts => exact ⟨_, [], starts, rfl⟩
  | step label _ _ stepped ih =>
    obtain ⟨start, labels, starts, ran⟩ := ih
    exact ⟨start, labels ++ [label], starts, run_concat ran stepped⟩

/-- With one initial state and no choice of labels there is one run: one of two states comes first in it. -/
theorem Reachable.linear {machine : Machine σ ℓ ε} [Subsingleton ℓ]
    (alone : ∀ first second, machine.initial first → machine.initial second → first = second) {first second : σ}
    (reachedFirst : machine.Reachable first) (reachedSecond : machine.Reachable second) :
    (∃ labels, machine.run first labels = .ok second) ∨ ∃ labels, machine.run second labels = .ok first := by
  induction reachedSecond with
  | initial starts =>
    obtain ⟨start, labels, starts', ran⟩ := reachedFirst.exists_run
    cases alone _ _ starts starts'
    exact .inr ⟨labels, ran⟩
  | @step state next label _ _ stepped ih =>
    obtain ⟨labels, ran⟩ | ⟨labels, ran⟩ := ih
    · exact .inl ⟨labels ++ [label], run_concat ran stepped⟩
    · cases labels with
      | nil =>
        cases ran
        exact .inl ⟨[label], by simp [Machine.run, stepped]⟩
      | cons label' rest =>
        cases Subsingleton.elim label label'
        simp only [Machine.run, stepped] at ran
        exact .inr ⟨rest, ran⟩

end Machine

end Sniper
