import Sniper.Performance.SmtTimer

/-! When the release of the barrier between the threads of a core ends. -/

namespace Sniper.Performance.SmtTimer

variable {config : Config} {counts : Nat → RobCounts} {releaseAll : Bool} {caller : Option Nat} {index limit fuel : Nat}
  {threads : List SmtThread} {progress : Progress} {state : State}

def AnyRunning (state : State) : Prop := ∃ thread ∈ state.threads, thread.running = true

theorem RobCounts.surplus_lt (counts : RobCounts) : counts.threadNumSurplusInstructions < 2 ^ 32 :=
  Nat.lt_of_le_of_lt (Nat.sub_le _ _) counts.small

@[simp] theorem release_numRunning (thread : SmtThread) :
    (release caller index thread progress).2.numRunning = progress.numRunning := by
  unfold release
  split <;> rfl

@[simp] theorem release_running (thread : SmtThread) : (release caller index thread progress).1.running = thread.running := by
  unfold release
  split <;> rfl

theorem Progress.le_count (thread : SmtThread) (progress : Progress) :
    progress.numRunning ≤ (progress.count thread).numRunning :=
  Nat.le_add_right _ _

/-! ## The first pass -/

theorem releaseWanted_running : (releaseWanted config counts releaseAll caller index threads progress).1.map (·.running) =
    threads.map (·.running) := by
  induction threads generalizing index progress with
  | nil => rfl
  | cons thread rest ih =>
    unfold releaseWanted
    split
    case isTrue => simp [ih]
    case isFalse =>
      split
      case isTrue => simp [ih]
      case isFalse =>
        dsimp only
        split <;> simp [ih]

theorem le_releaseWanted :
    progress.numRunning ≤ (releaseWanted config counts releaseAll caller index threads progress).2.numRunning := by
  induction threads generalizing index progress with
  | nil => exact Nat.le_refl _
  | cons thread rest ih =>
    unfold releaseWanted
    split
    case isTrue => exact Nat.le_trans (progress.le_count thread) ih
    case isFalse =>
      split
      case isTrue => exact ih
      case isFalse =>
        dsimp only
        split
        case isTrue =>
          refine Nat.le_trans (progress.le_count thread) ?_
          refine Nat.le_trans ?_ ih
          simp
        case isFalse => simpa using progress.le_count thread

theorem releaseWanted_idle (idle : ∀ thread ∈ threads, thread.running = false) :
    (releaseWanted config counts releaseAll caller index threads progress).2.numRunning = progress.numRunning := by
  induction threads generalizing index progress with
  | nil => rfl
  | cons thread rest ih =>
    have first := idle thread List.mem_cons_self
    have others thread (member : thread ∈ rest) := idle thread (List.mem_cons_of_mem _ member)
    unfold releaseWanted
    split
    case isTrue => simp [ih others, Progress.count, first]
    case isFalse =>
      split
      case isTrue => simp [ih others]
      case isFalse =>
        dsimp only
        split <;> simp [ih others, Progress.count, first]

theorem releaseWanted_inBarrier
    (reached : releaseAll = true ∨ ∀ thread ∈ threads, thread.running = true → thread.inBarrier = true)
    (none_ : (releaseWanted config counts releaseAll caller index threads progress).2.numRunning = 0) :
    ∀ thread ∈ (releaseWanted config counts releaseAll caller index threads progress).1,
      thread.running = true → thread.inBarrier = true := by
  induction threads generalizing index progress with
  | nil => exact fun thread member => absurd member List.not_mem_nil
  | cons first rest ih =>
    have behind : releaseAll = true ∨ ∀ thread ∈ rest, thread.running = true → thread.inBarrier = true :=
      reached.imp_right fun all thread member => all thread (List.mem_cons_of_mem _ member)
    have idle (uncounted : (progress.count first).numRunning = 0) : first.running = false := by
      by_cases runs : first.running = true
      · simp [Progress.count, runs] at uncounted
      · exact Bool.eq_false_iff.mpr runs
    unfold releaseWanted at none_ ⊢
    split
    case isTrue outside =>
      rw [if_pos outside] at none_
      have stops := idle (Nat.le_zero.mp (Nat.le_trans le_releaseWanted (Nat.le_of_eq none_)))
      intro thread member runs
      cases List.mem_cons.mp member with
      | inl same =>
        rw [same, stops] at runs
        cases runs
      | inr later => exact ih behind none_ thread later runs
    case isFalse inside =>
      rw [if_neg inside] at none_
      split
      case isTrue enough =>
        rw [if_pos enough] at none_
        intro thread member runs
        cases List.mem_cons.mp member with
        | inl same =>
          rw [same]
          simpa using inside
        | inr later => exact ih behind none_ thread later runs
      case isFalse wanted =>
        rw [if_neg wanted] at none_
        dsimp only at none_ ⊢
        split
        case isTrue all =>
          rw [if_pos all] at none_
          have counted := Nat.le_zero.mp (Nat.le_trans le_releaseWanted (Nat.le_of_eq none_))
          rw [release_numRunning] at counted
          have stops := idle counted
          intro thread member runs
          cases List.mem_cons.mp member with
          | inl same =>
            rw [same, release_running, stops] at runs
            cases runs
          | inr later => exact ih behind none_ thread later runs
        case isFalse one =>
          rw [if_neg one] at none_
          have stops := idle (by simpa using none_)
          have others := behind.resolve_left one
          intro thread member runs
          cases List.mem_cons.mp member with
          | inl same =>
            rw [same, release_running, stops] at runs
            cases runs
          | inr later => exact others thread later runs

/-! ## The rounds of the second pass -/

theorem le_releaseBelow :
    progress.numRunning ≤ (releaseBelow counts releaseAll caller limit index threads progress).2.numRunning := by
  induction threads generalizing index progress with
  | nil => exact Nat.le_refl _
  | cons thread rest ih =>
    unfold releaseBelow
    split
    case isTrue =>
      dsimp only
      split
      case isTrue =>
        refine Nat.le_trans ?_ ih
        simp
      case isFalse => simp
    case isFalse => exact ih

theorem releaseBelow_cases : (releaseBelow counts releaseAll caller limit index threads progress).2.numRunning ≠ 0 ∨
    releaseBelow counts releaseAll caller limit index threads progress = (threads, progress) := by
  induction threads generalizing index progress with
  | nil => exact .inr rfl
  | cons thread rest ih =>
    unfold releaseBelow
    split
    case isTrue =>
      left
      dsimp only
      split
      case isTrue =>
        apply Nat.ne_of_gt
        refine Nat.lt_of_lt_of_le ?_ le_releaseBelow
        simp
      case isFalse => simp
    case isFalse =>
      obtain counted | same := @ih (index + 1) progress
      · exact .inl counted
      · right
        dsimp only
        rw [same]

theorem releaseBelow_counts (small : ∀ index, (counts index).threadNumSurplusInstructions < limit)
    (some : ∃ thread ∈ threads, thread.running = true ∧ thread.inBarrier = true) :
    (releaseBelow counts releaseAll caller limit index threads progress).2.numRunning ≠ 0 := by
  induction threads generalizing index progress with
  | nil =>
    obtain ⟨thread, member, -⟩ := some
    cases member
  | cons first rest ih =>
    unfold releaseBelow
    split
    case isTrue =>
      dsimp only
      split
      case isTrue =>
        apply Nat.ne_of_gt
        refine Nat.lt_of_lt_of_le ?_ le_releaseBelow
        simp
      case isFalse => simp
    case isFalse skipped =>
      apply ih
      obtain ⟨thread, member, runs, inside⟩ := some
      cases List.mem_cons.mp member with
      | inl same =>
        subst same
        simp [runs, inside, small index] at skipped
      | inr later => exact ⟨thread, later, runs, inside⟩

theorem releaseBelow_idle (idle : ∀ thread ∈ threads, thread.running = false) :
    releaseBelow counts releaseAll caller limit index threads progress = (threads, progress) := by
  induction threads generalizing index progress with
  | nil => rfl
  | cons thread rest ih =>
    have first := idle thread List.mem_cons_self
    unfold releaseBelow
    rw [if_neg (by simp [first])]
    dsimp only
    rw [ih fun thread member => idle thread (List.mem_cons_of_mem _ member)]

theorem releaseBelow_running : (releaseBelow counts releaseAll caller limit index threads progress).1.map (·.running) =
    threads.map (·.running) := by
  induction threads generalizing index progress with
  | nil => rfl
  | cons thread rest ih =>
    unfold releaseBelow
    split
    case isTrue =>
      dsimp only
      split <;> simp [ih]
    case isFalse => simp [ih]

/-! ## The loop -/

theorem releaseSome_of_counted {released : List SmtThread × Progress} (counted : released.2.numRunning ≠ 0) :
    releaseSome counts releaseAll caller (fuel + 1) limit released = some released :=
  if_pos counted

theorem releaseSome_isSome (left : Nat) (inside : left ≤ 32) (enough : left + 2 ≤ fuel)
    (some : ∃ thread ∈ threads, thread.running = true ∧ thread.inBarrier = true) :
    (releaseSome counts releaseAll caller fuel (2 ^ (32 - left)) (threads, progress)).isSome = true := by
  induction left generalizing fuel with
  | zero =>
    obtain ⟨fuel, rfl⟩ : ∃ rest, fuel = rest + 2 := ⟨fuel - 2, by omega⟩
    rw [releaseSome]
    split
    case isTrue => rfl
    case isFalse =>
      have counted := @releaseBelow_counts counts releaseAll caller 0 (2 ^ (32 - 0)) threads progress
        (fun index => (counts index).surplus_lt) some
      rw [releaseSome_of_counted counted]
      rfl
  | succ left ih =>
    obtain ⟨fuel, rfl⟩ : ∃ rest, fuel = rest + 2 := ⟨fuel - 2, by omega⟩
    rw [releaseSome]
    split
    case isTrue => rfl
    case isFalse =>
      obtain counted | same := @releaseBelow_cases counts releaseAll caller 0 (2 ^ (32 - (left + 1))) threads progress
      · rw [releaseSome_of_counted counted]
        rfl
      · have doubled : 2 * 2 ^ (32 - (left + 1)) % 2 ^ 64 = 2 ^ (32 - left) := by
          have power : 2 * 2 ^ (32 - (left + 1)) = 2 ^ (32 - left) := by
            rw [← Nat.pow_succ']
            congr 1
            omega
          rw [power]
          exact Nat.mod_eq_of_lt (Nat.pow_lt_pow_right (by omega) (by omega))
        rw [same, doubled]
        exact ih (by omega) (by omega)

theorem releaseSome_idle (idle : ∀ thread ∈ threads, thread.running = false) (none_ : progress.numRunning = 0) :
    releaseSome counts releaseAll caller fuel limit (threads, progress) = none := by
  induction fuel generalizing limit with
  | zero => rfl
  | succ fuel ih =>
    rw [releaseSome, if_neg (by simp [none_]), releaseBelow_idle idle]
    exact ih

theorem releaseSome_running {released : List SmtThread × Progress}
    (returned : releaseSome counts releaseAll caller fuel limit (threads, progress) = some released) :
    released.1.map (·.running) = threads.map (·.running) := by
  induction fuel generalizing limit threads progress with
  | zero => cases returned
  | succ fuel ih =>
    rw [releaseSome] at returned
    split at returned
    case isTrue =>
      cases returned
      rfl
    case isFalse => exact (ih returned).trans releaseBelow_running

theorem releaseWanted_member {thread : SmtThread} (member : thread ∈ threads) (runs : thread.running = true) :
    ∃ thread ∈ (releaseWanted config counts releaseAll caller index threads progress).1, thread.running = true := by
  have flag : true ∈ threads.map (·.running) := List.mem_map.mpr ⟨thread, member, runs⟩
  rw [← @releaseWanted_running config counts releaseAll caller index threads progress] at flag
  exact List.mem_map.mp flag

theorem barrierRelease_isSome (enough : enoughFuel ≤ fuel) (running : AnyRunning state)
    (reached : releaseAll = true ∨ ∀ thread ∈ state.threads, thread.running = true → thread.inBarrier = true) :
    ∃ released, barrierRelease config fuel counts releaseAll caller state = some released := by
  obtain ⟨thread, member, runs⟩ := running
  have released : (releaseSome counts releaseAll caller fuel 1
      (releaseWanted config counts releaseAll caller 0 state.threads ⟨0, false, caller⟩)).isSome = true := by
    have inBarrier := @releaseWanted_inBarrier config counts releaseAll caller 0 state.threads ⟨0, false, caller⟩ reached
    have kept := @releaseWanted_member config counts releaseAll caller 0 state.threads ⟨0, false, caller⟩ thread member runs
    generalize releaseWanted config counts releaseAll caller 0 state.threads ⟨0, false, caller⟩ = first at inBarrier kept ⊢
    obtain ⟨threads, progress⟩ := first
    unfold enoughFuel at enough
    by_cases counted : progress.numRunning = 0
    · obtain ⟨thread, member, runs⟩ := kept
      have some : ∃ thread ∈ threads, thread.running = true ∧ thread.inBarrier = true :=
        ⟨thread, member, runs, inBarrier counted thread member runs⟩
      exact releaseSome_isSome 32 (Nat.le_refl _) (by omega) some
    · obtain ⟨fuel, rfl⟩ : ∃ rest, fuel = rest + 1 := ⟨fuel - 1, by omega⟩
      rw [releaseSome_of_counted counted]
      rfl
  obtain ⟨result, found⟩ := Option.isSome_iff_exists.mp released
  exact ⟨_, by rw [barrierRelease, found]; rfl⟩

theorem barrierRelease_none (idle : ¬AnyRunning state) (fuel : Nat) :
    barrierRelease config fuel counts releaseAll caller state = none := by
  have stopped : ∀ thread ∈ state.threads, thread.running = false := by
    intro thread member
    apply Bool.eq_false_iff.mpr
    exact fun runs => idle ⟨thread, member, runs⟩
  have none_ := @releaseWanted_idle config counts releaseAll caller 0 state.threads ⟨0, false, caller⟩ stopped
  have flags := @releaseWanted_running config counts releaseAll caller 0 state.threads ⟨0, false, caller⟩
  unfold barrierRelease
  generalize releaseWanted config counts releaseAll caller 0 state.threads ⟨0, false, caller⟩ = first at none_ flags ⊢
  obtain ⟨threads, progress⟩ := first
  have still : ∀ thread ∈ threads, thread.running = false := by
    intro thread member
    have flag : thread.running ∈ threads.map (·.running) := List.mem_map.mpr ⟨thread, member, rfl⟩
    rw [flags] at flag
    obtain ⟨before, held, same⟩ := List.mem_map.mp flag
    rw [← same]
    exact stopped before held
  rw [releaseSome_idle still none_]
  rfl

theorem barrierRelease_running {released : State × Bool}
    (returned : barrierRelease config fuel counts releaseAll caller state = some released) : AnyRunning state := by
  apply Classical.not_not.mp
  intro idle
  rw [barrierRelease_none idle] at returned
  cases returned

/-! ## Calls -/

theorem allInBarrier_cases {anyInBarrier : Bool} (reached : allInBarrier anyInBarrier threads = true) :
    ∀ thread ∈ threads, thread.running = true → thread.inBarrier = true := by
  induction threads generalizing anyInBarrier with
  | nil => exact fun thread member => absurd member List.not_mem_nil
  | cons first rest ih =>
    unfold allInBarrier at reached
    split at reached
    case isTrue => cases reached
    case isFalse inside =>
      intro thread member runs
      cases List.mem_cons.mp member with
      | inl same =>
        rw [same] at runs ⊢
        simpa [runs] using inside
      | inr later => exact ih reached thread later runs

theorem isBarrierReached_cases (reached : isBarrierReached state = true) :
    ∀ thread ∈ state.threads, thread.running = true → thread.inBarrier = true := by
  unfold isBarrierReached at reached
  split at reached
  case isTrue => cases reached
  case isFalse => exact allInBarrier_cases reached

/-- The state in which `simulate` finds out whether the barrier is reached. -/
def enterBarrier (index : Nat) (state : State) : State :=
  setThread index (fun thread => { thread with inBarrier := true }) state

/-- The state in which `threadExit` and `threadStall` find out whether the barrier is reached. -/
def stopThread (threadId : Nat) (state : State) : State :=
  changeThread threadId (fun thread => { thread with running := false }) state

/-- A thread runs where the barrier is released: as a thread enters it last, as another one stops and leaves only threads
in the barrier, and at the return from the global barrier. -/
def KeepsRunning (config : Config) (state : State) : Event → Prop
  | .simulate index before _ => ∀ thread, state.threads[index]? = some thread → thread.thread ≠ none →
      128 < (before index).threadNumSurplusInstructions → state.enabled = true →
      isBarrierReached (enterBarrier index state) = true → AnyRunning state
  | .wake index _ => index ∈ state.waiting → (∃ thread, state.threads[index]? = some thread ∧ thread.signalled = true) →
      state.executeThread = some index → config.client = false → AnyRunning state
  | .synchronized index _ => index ∈ state.syncing → AnyRunning state
  | .threadExit threadId _ | .threadStall threadId _ =>
    isBarrierReached (stopThread threadId state) = true → AnyRunning (stopThread threadId state)
  | .threadStart _ | .threadResume _ | .threadMigrate _ _ | .roiBegin | .enable | .disable => True

def Returns (config : Config) (state : State) (event : Event) : Prop :=
  ∃ fuel, step config fuel state event ≠ .error .outOfFuel

theorem afterSync_returns (enough : enoughFuel ≤ fuel) (running : AnyRunning state) :
    afterSync config fuel counts index state ≠ .error .outOfFuel := by
  obtain ⟨released, found⟩ := @barrierRelease_isSome config counts true (some index) fuel state enough running (.inl rfl)
  unfold afterSync
  rw [found]
  intro failed
  cases failed

theorem afterSync_running (returned : afterSync config fuel counts index state ≠ .error .outOfFuel) : AnyRunning state := by
  unfold afterSync at returned
  cases found : barrierRelease config fuel counts true (some index) state with
  | none =>
    rw [found] at returned
    exact absurd rfl returned
  | some released => exact barrierRelease_running found

theorem afterBarrier_returns (enough : enoughFuel ≤ fuel)
    (running : state.executeThread = some index → config.client = false → AnyRunning state) :
    afterBarrier config fuel counts index state ≠ .error .outOfFuel := by
  unfold afterBarrier
  split
  case isTrue own =>
    dsimp only
    split
    case isTrue =>
      intro failed
      cases failed
    case isFalse alone => exact afterSync_returns enough (running own (Bool.eq_false_iff.mpr alone))
  case isFalse =>
    intro failed
    cases failed

theorem afterBarrier_running (returned : afterBarrier config fuel counts index state ≠ .error .outOfFuel)
    (own : state.executeThread = some index) (alone : config.client = false) : AnyRunning state := by
  unfold afterBarrier at returned
  rw [if_pos own] at returned
  dsimp only at returned
  rw [if_neg (by simp [alone])] at returned
  exact afterSync_running returned

theorem anyRunning_iff (state : State) : AnyRunning state ↔ true ∈ state.threads.map (·.running) :=
  List.mem_map.symm

theorem AnyRunning.modify {change : SmtThread → SmtThread} (same : ∀ thread, (change thread).running = thread.running) :
    AnyRunning (setThread index change state) ↔ AnyRunning state := by
  have flags : (state.threads.modify index change).map (·.running) = state.threads.map (·.running) := by
    apply List.ext_getElem?
    intro place
    rw [List.getElem?_map, List.getElem?_modify, List.getElem?_map]
    cases state.threads[place]? with
    | none => rfl
    | some thread =>
      by_cases own : index = place
      · simp [own, same]
      · simp [own]
  rw [anyRunning_iff, anyRunning_iff, ← flags]
  rfl

theorem barrierRelease_anyRunning {released : State × Bool}
    (returned : barrierRelease config fuel counts releaseAll caller state = some released) : AnyRunning released.1 := by
  have before := (anyRunning_iff state).mp (barrierRelease_running returned)
  obtain ⟨result, found, rfl⟩ := Option.map_eq_some_iff.mp returned
  apply (anyRunning_iff _).mpr
  have flags := (releaseSome_running found).trans releaseWanted_running
  rw [← flags] at before
  exact before

theorem enterBarrier_anyRunning : AnyRunning (enterBarrier index state) ↔ AnyRunning state :=
  AnyRunning.modify fun _ => rfl

theorem simulate_returns {before after : Nat → RobCounts} (enough : enoughFuel ≤ fuel)
    (running : KeepsRunning config state (.simulate index before after)) :
    simulate config fuel before after index state ≠ .error .outOfFuel := by
  unfold simulate
  cases found : state.threads[index]? with
  | none =>
    intro failed
    cases failed
  | some thread =>
    dsimp only
    split
    case isTrue =>
      intro failed
      cases failed
    case isFalse surplus =>
      split
      case isTrue =>
        intro failed
        cases failed
      case isFalse enabled =>
        split
        case isTrue =>
          intro failed
          cases failed
        case isFalse owned =>
          split
          case isTrue =>
            intro failed
            cases failed
          case isFalse reached =>
            have enabled : state.enabled = true := by simpa using enabled
            have reached : isBarrierReached (enterBarrier index state) = true := by simpa [enterBarrier] using reached
            have runs := running thread found owned (Nat.lt_of_not_le surplus) enabled reached
            obtain ⟨released, returned⟩ := @barrierRelease_isSome config before false (some index) fuel
              (enterBarrier index state) enough (enterBarrier_anyRunning.mpr runs) (.inr (isBarrierReached_cases reached))
            have kept := barrierRelease_anyRunning returned
            unfold enterBarrier at returned
            obtain ⟨next, releaseMe⟩ := released
            rw [returned]
            dsimp only
            split
            case isTrue =>
              apply afterBarrier_returns enough
              have same (thread : SmtThread) : { thread with inBarrier := false }.running = thread.running := rfl
              exact fun _ _ => (AnyRunning.modify same).mpr kept
            case isFalse =>
              intro failed
              cases failed

theorem simulate_running {before after : Nat → RobCounts}
    (returned : simulate config fuel before after index state ≠ .error .outOfFuel) :
    KeepsRunning config state (.simulate index before after) := by
  intro thread found owned surplus enabled reached
  unfold simulate at returned
  rw [found] at returned
  dsimp only at returned
  unfold enterBarrier at reached
  rw [if_neg (Nat.not_le.mpr surplus), if_neg (by simp [enabled]), if_neg owned, if_neg (by simp [reached])] at returned
  apply enterBarrier_anyRunning.mp
  unfold enterBarrier
  cases released : barrierRelease config fuel before false (some index)
      (setThread index (fun thread => { thread with inBarrier := true }) state) with
  | none =>
    rw [released] at returned
    exact absurd rfl returned
  | some result => exact barrierRelease_running released

theorem threadStop_returns {threadId : Nat} (enough : enoughFuel ≤ fuel)
    (running : isBarrierReached (stopThread threadId state) = true → AnyRunning (stopThread threadId state)) :
    threadStop config fuel counts threadId state ≠ .error .outOfFuel := by
  unfold threadStop signalBarrier
  split
  case isTrue reached =>
    obtain ⟨released, returned⟩ := @barrierRelease_isSome config counts false none fuel (stopThread threadId state) enough
      (running reached) (.inr (isBarrierReached_cases reached))
    unfold stopThread at returned
    rw [returned]
    intro failed
    cases failed
  case isFalse =>
    intro failed
    cases failed

theorem threadStop_running {threadId : Nat} (returned : threadStop config fuel counts threadId state ≠ .error .outOfFuel)
    (reached : isBarrierReached (stopThread threadId state) = true) : AnyRunning (stopThread threadId state) := by
  unfold threadStop signalBarrier at returned
  unfold stopThread at reached ⊢
  rw [if_pos reached] at returned
  cases released : barrierRelease config fuel counts false none
      (changeThread threadId (fun thread => { thread with running := false }) state) with
  | none =>
    rw [released] at returned
    exact absurd rfl returned
  | some result => exact barrierRelease_running released

theorem step_returns {event : Event} (enough : enoughFuel ≤ fuel) (running : KeepsRunning config state event) :
    step config fuel state event ≠ .error .outOfFuel := by
  cases event with
  | simulate index before after => exact simulate_returns enough running
  | wake index counts =>
    simp only [step]
    split
    case isTrue wakes =>
      apply afterBarrier_returns enough
      intro own alone
      obtain ⟨thread, found, signalled⟩ := (Option.any_eq_true _ _).mp wakes.2
      exact running wakes.1 ⟨thread, found, signalled⟩ own alone
    case isFalse =>
      intro failed
      cases failed
  | synchronized index counts =>
    simp only [step]
    split
    case isTrue inside => exact afterSync_returns enough (running inside)
    case isFalse =>
      intro failed
      cases failed
  | threadExit threadId counts => exact threadStop_returns enough running
  | threadStall threadId counts => exact threadStop_returns enough running
  | threadStart | threadResume | threadMigrate | roiBegin | enable | disable =>
    intro failed
    cases failed

theorem step_running {event : Event} (returned : step config fuel state event ≠ .error .outOfFuel) :
    KeepsRunning config state event := by
  cases event with
  | simulate index before after => exact simulate_running returned
  | wake index counts =>
    intro inside signalled own alone
    simp only [step] at returned
    rw [if_pos ⟨inside, (Option.any_eq_true _ _).mpr signalled⟩] at returned
    exact @afterBarrier_running _ _ _ _ { state with waiting := state.waiting.erase index } returned own alone
  | synchronized index counts =>
    intro inside
    simp only [step] at returned
    rw [if_pos inside] at returned
    exact @afterSync_running _ _ _ _ { state with inSync := false, syncing := state.syncing.erase index } returned
  | threadExit threadId counts => exact threadStop_running returned
  | threadStall threadId counts => exact threadStop_running returned
  | threadStart | threadResume | threadMigrate | roiBegin | enable | disable => trivial

theorem step_outOfFuel {event : Event} (failed : step config enoughFuel state event = .error .outOfFuel) (fuel : Nat) :
    step config fuel state event = .error .outOfFuel := by
  apply Classical.not_not.mp
  intro returned
  exact step_returns (Nat.le_refl _) (step_running returned) failed

/-- A thread runs wherever the calls release the barrier. -/
def AllKeepRunning (config : Config) : State → List Event → Prop
  | _, [] => True
  | state, event :: later =>
    KeepsRunning config state event ∧
      ∀ next, step config enoughFuel state event = .ok next → AllKeepRunning config next later

theorem run_returns_iff (config : Config) (cores : List Nat) (state : State) (events : List Event) :
    (machine config cores).run state events ≠ .error .outOfFuel ↔ AllKeepRunning config state events := by
  induction events generalizing state with
  | nil => exact ⟨fun _ => trivial, fun _ failed => by cases failed⟩
  | cons event later ih =>
    have steps : (machine config cores).step state event = step config enoughFuel state event := rfl
    unfold Machine.run AllKeepRunning
    rw [steps]
    cases stepped : step config enoughFuel state event with
    | ok next =>
      have returned : step config enoughFuel state event ≠ .error .outOfFuel := by
        rw [stepped]
        intro failed
        cases failed
      dsimp only
      rw [ih next]
      constructor
      · intro keep
        refine ⟨step_running returned, fun other same => ?_⟩
        cases same
        exact keep
      · exact fun keep => keep.2 next rfl
    | error failure =>
      dsimp only
      constructor
      · intro returned
        have running : step config enoughFuel state event ≠ .error .outOfFuel := by
          rw [stepped]
          exact fun failed => returned (congrArg _ (Except.error.inj failed))
        refine ⟨step_running running, fun next same => ?_⟩
        · cases same
      · intro keep failed
        have returned := step_returns (Nat.le_refl enoughFuel) keep.1
        rw [stepped] at returned
        exact returned (congrArg _ (Except.error.inj failed))

/-- Every call of a run returns if and only if a thread runs wherever a call releases the barrier, and a call that does not
return would not do so with more rounds either. -/
theorem barrierRelease_returns_iff (config : Config) (cores : List Nat) (events : List Event) :
    ((machine config cores).run (.initial cores) events ≠ .error .outOfFuel ↔ AllKeepRunning config (.initial cores) events) ∧
      ∀ state event, step config enoughFuel state event = .error .outOfFuel →
        ∀ fuel, step config fuel state event = .error .outOfFuel :=
  ⟨run_returns_iff config cores _ events, fun _ _ => step_outOfFuel⟩

theorem surplus_held : 0 ≤ 129 := Nat.zero_le _

theorem surplus_small : 129 < 2 ^ 32 := by decide

def surplusCounts (_ : Nat) : RobCounts := ⟨129, 0, surplus_held, surplus_small⟩

/-- The only thread of a core is moved away while it synchronizes with the global barrier. -/
theorem migration_during_synchronize :
    ¬ ∀ config cores events, (machine config cores).run (.initial cores) events ≠ .error .outOfFuel := by
  intro returns
  have keep := (run_returns_iff _ _ _ _).mp (returns ⟨4, true⟩ [0] [.threadMigrate 7 (some 0),
    .simulate 0 surplusCounts surplusCounts, .threadMigrate 7 none, .synchronized 0 surplusCounts])
  have synchronizes := (keep.2 _ rfl).2 _ rfl
  have left := synchronizes.2 _ rfl
  obtain ⟨thread, member, runs⟩ := left.1 List.mem_cons_self
  cases List.mem_singleton.mp member
  cases runs

end Sniper.Performance.SmtTimer
