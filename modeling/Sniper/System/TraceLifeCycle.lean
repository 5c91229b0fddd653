import Sniper.Library.Counting
import Sniper.System.TraceManager
import Mathlib.Data.List.Basic

/-! The counts of the trace manager over whole runs. -/

namespace Sniper.System.TraceManager

/-- The threads of an application that have not stopped. -/
def live (threads : List TraceThread) (appId : Nat) : Nat :=
  threads.countP fun thread => thread.appId = appId ∧ thread.stopped = false

/-- The threads that have not stopped. -/
def alive (threads : List TraceThread) : Nat := threads.countP fun thread => thread.stopped = false

def exitsOf (hooks : List Hook) (appId : Nat) : Nat := hooks.count (.applicationExit appId)

/-- How many runs of an application, of those that have been started, have no thread that has not stopped. -/
def State.completedRuns (state : State) (appId : Nat) : Nat :=
  (List.range (startsOf state.hooks appId)).countP fun run =>
    state.threads.all fun thread => !(thread.appId == appId && thread.run == run + 1) || thread.stopped

/-! ## Counts of threads -/

section Counts

variable {index : Nat} {threads : List TraceThread} {thread : TraceThread} {appId : Nat}

theorem live_append : live (threads ++ [thread]) appId =
    live threads appId + if thread.appId = appId ∧ thread.stopped = false then 1 else 0 := by
  simp [live, List.countP_append, List.countP_singleton]

theorem alive_append : alive (threads ++ [thread]) = alive threads + if thread.stopped = false then 1 else 0 := by
  simp [alive, List.countP_append, List.countP_singleton]

theorem live_map_stop : live (threads.map fun thread => { thread with stop := true }) appId = live threads appId := by
  simp [live, List.countP_map, Function.comp_def]

theorem alive_map_stop : alive (threads.map fun thread => { thread with stop := true }) = alive threads := by
  simp [alive, List.countP_map, Function.comp_def]

theorem live_set_stop (found : threads[index]? = some thread) :
    live (threads.set index { thread with stop := true }) appId = live threads appId := by
  have counts := countP_set_add { thread with stop := true } found
    fun thread => thread.appId = appId ∧ thread.stopped = false
  exact Nat.add_right_cancel counts

theorem alive_set_stop (found : threads[index]? = some thread) :
    alive (threads.set index { thread with stop := true }) = alive threads := by
  have counts := countP_set_add { thread with stop := true } found fun thread => thread.stopped = false
  exact Nat.add_right_cancel counts

theorem live_set_stopped (found : threads[index]? = some thread) (runs : thread.stopped = false) :
    live (threads.set index { thread with stopped := true }) appId + (if thread.appId = appId then 1 else 0) =
      live threads appId := by
  have counts := countP_set_add { thread with stopped := true } found
    fun thread => thread.appId = appId ∧ thread.stopped = false
  simpa [live, runs] using counts

theorem alive_set_stopped (found : threads[index]? = some thread) (runs : thread.stopped = false) :
    alive (threads.set index { thread with stopped := true }) + 1 = alive threads := by
  have counts := countP_set_add { thread with stopped := true } found fun thread => thread.stopped = false
  simpa [alive, runs] using counts

theorem live_pos (found : threads[index]? = some thread) (runs : thread.stopped = false) : 0 < live threads thread.appId := by
  apply List.countP_pos_iff.mpr
  exact ⟨thread, List.mem_of_getElem? found, by simp [runs]⟩

end Counts

/-! ## The invariant -/

/-- The counts of the manager, with `extra` threads in `m_num_threads_running` that have just stopped. -/
structure Sound (config : Config) (extra : Nat) (state : State) : Prop where
  size : state.appInfo.length = state.numApps
  tables : config.numApps ≤ state.numApps
  apps : ∀ thread ∈ state.threads, thread.appId < state.numApps
  numThreads : ∀ appId info, state.appInfo[appId]? = some info → info.numThreads = live state.threads appId
  running : state.numThreadsRunning = alive state.threads + extra
  unknown : ∀ appId, state.numApps ≤ appId → startsOf state.hooks appId = 0 ∧ exitsOf state.hooks appId = 0
  runs : ∀ thread ∈ state.threads, thread.stopped = false → thread.run = startsOf state.hooks thread.appId
  numRuns : ∀ appId info, state.appInfo[appId]? = some info →
    info.numRuns + (if live state.threads appId = 0 then 0 else 1) = startsOf state.hooks appId
  exits : ∀ appId info, state.appInfo[appId]? = some info → exitsOf state.hooks appId = info.numRuns
  nonfinish : state.numAppsNonfinish = state.appInfo.countP fun info => info.numRuns = 0

/-- The simulation has been stopped where all applications have finished a run. -/
def Due (state : State) : Prop := 0 < state.numApps → state.numAppsNonfinish = 0 → 0 < state.stops

variable {config : Config} {extra : Nat} {state next : State} {appId index : Nat} {thread : TraceThread} {info : AppInfo}

theorem Sound.found (sound : Sound config extra state) (known : appId < state.numApps) :
    ∃ info, state.appInfo[appId]? = some info := by
  rw [← sound.size] at known
  exact ⟨_, List.getElem?_eq_getElem known⟩

theorem Sound.known (sound : Sound config extra state) (found : state.appInfo[appId]? = some info) :
    appId < state.numApps := by
  rw [← sound.size]
  exact (List.getElem?_eq_some_iff.mp found).1

structure Counted (threads : List TraceThread) (hooks : List Hook) (appId : Nat) (info : AppInfo) : Prop where
  numThreads : info.numThreads = live threads appId
  numRuns : info.numRuns + (if live threads appId = 0 then 0 else 1) = startsOf hooks appId
  exits : exitsOf hooks appId = info.numRuns

theorem Sound.counted (sound : Sound config extra state) (found : state.appInfo[appId]? = some info) :
    Counted state.threads state.hooks appId info :=
  ⟨sound.numThreads appId info found, sound.numRuns appId info found, sound.exits appId info found⟩

theorem startsOf_start (hooks : List Hook) (appId other : Nat) : startsOf (hooks ++ [.applicationStart appId]) other =
    startsOf hooks other + if appId = other then 1 else 0 := by
  simp [startsOf, List.count_append, List.count_singleton]

theorem exitsOf_start (hooks : List Hook) (appId other : Nat) :
    exitsOf (hooks ++ [.applicationStart appId]) other = exitsOf hooks other := by
  simp [exitsOf, List.count_append]

theorem startsOf_exit (hooks : List Hook) (appId other : Nat) :
    startsOf (hooks ++ [.applicationExit appId]) other = startsOf hooks other := by
  simp [startsOf, List.count_append]

theorem exitsOf_exit (hooks : List Hook) (appId other : Nat) : exitsOf (hooks ++ [.applicationExit appId]) other =
    exitsOf hooks other + if appId = other then 1 else 0 := by
  simp [exitsOf, List.count_append, List.count_singleton]

theorem files_some {threadNum : Nat} {first initFifo : Bool} (inTable : first = true → initFifo = false → appId < config.numApps) :
    ∃ names, files config appId threadNum first initFifo = some names := by
  unfold files
  cases initFifo with
  | true => exact ⟨_, rfl⟩
  | false =>
    cases first with
    | false => exact ⟨_, rfl⟩
    | true =>
      have inside := inTable rfl rfl
      have traces : config.tracefiles[appId]? = some _ :=
        List.getElem?_eq_getElem (by simpa [Config.tracefiles] using inside)
      have responses : config.responsefiles[appId]? = some _ :=
        List.getElem?_eq_getElem (by simpa [Config.responsefiles] using inside)
      simp only [Bool.false_eq_true, if_false, if_true, traces, responses]
      split
      case isTrue => exact ⟨_, rfl⟩
      case isFalse => exact ⟨_, rfl⟩

theorem newThread_cases {first initFifo : Bool} (created : newThread config appId first initFifo state = .ok next) :
    ∃ info names, appId < state.numApps ∧ state.appInfo[appId]? = some info ∧
      next = { state with
        appInfo := state.appInfo.set appId (
          if first then { info with threadCount := 1, numThreads := 1 }
          else { info with threadCount := info.threadCount + 1, numThreads := info.numThreads + 1 })
        hooks := if first then state.hooks ++ [.applicationStart appId] else state.hooks
        numThreadsRunning := state.numThreadsRunning + 1
        threads := state.threads ++ [⟨Prod.fst names, Prod.snd names, appId, false, false,
          startsOf (if first then state.hooks ++ [.applicationStart appId] else state.hooks) appId⟩] } := by
  unfold newThread at created
  split at created
  case isTrue => cases created
  case isFalse known =>
    split at created
    case h_1 => cases created
    case h_2 info found =>
      dsimp only at created
      split at created
      case h_1 => cases created
      case h_2 names _ =>
        cases created
        exact ⟨info, names, Nat.lt_of_not_le known, found, rfl⟩

theorem newThread_ok (first initFifo : Bool) (sound : Sound config extra state) (known : appId < state.numApps)
    (inTable : first = true → initFifo = false → appId < config.numApps) :
    ∃ next, newThread config appId first initFifo state = .ok next := by
  obtain ⟨info, found⟩ := sound.found known
  obtain ⟨names, named⟩ := @files_some config appId (if first then 0 else info.threadCount) first initFifo inTable
  unfold newThread
  rw [if_neg (Nat.not_le.mpr known), found]
  dsimp only
  rw [named]
  exact ⟨_, rfl⟩

theorem appInfo_set (list : List AppInfo) (appId other : Nat) (new : AppInfo) {info : AppInfo}
    (found : (list.set appId new)[other]? = some info) :
    (other = appId ∧ info = new) ∨ other ≠ appId ∧ list[other]? = some info := by
  rw [List.getElem?_set] at found
  split at found
  case isTrue same =>
    split at found
    case isTrue => exact .inl ⟨same.symm, (Option.some.inj found).symm⟩
    case isFalse => cases found
  case isFalse other => exact .inr ⟨Ne.symm other, found⟩

theorem Sound.counted_set {threads : List TraceThread} {hooks : List Hook} {new : AppInfo} (sound : Sound config extra state)
    (own : Counted threads hooks appId new)
    (others : ∀ other info, other ≠ appId → Counted state.threads state.hooks other info → Counted threads hooks other info) :
    ∀ other info, (state.appInfo.set appId new)[other]? = some info → Counted threads hooks other info := by
  intro other info found
  obtain ⟨rfl, rfl⟩ | ⟨different, old⟩ := appInfo_set _ _ _ _ found
  · exact own
  · exact others other info different (sound.counted old)

theorem countP_numRuns_set {list : List AppInfo} (new : AppInfo) (found : list[appId]? = some info) (same : new.numRuns = info.numRuns) :
    (list.set appId new).countP (fun info => info.numRuns = 0) = list.countP fun info => info.numRuns = 0 := by
  have counts := countP_set_add new found fun info => info.numRuns = 0
  rw [same] at counts
  exact Nat.add_right_cancel counts

theorem Counted.another {threads : List TraceThread} {hooks : List Hook} {new : AppInfo} (runs : thread.stopped = false)
    (counted : Counted threads hooks thread.appId info) (some : 0 < live threads thread.appId)
    (numThreads : new.numThreads = info.numThreads + 1) (numRuns : new.numRuns = info.numRuns) :
    Counted (threads ++ [thread]) hooks thread.appId new := by
  have one : live (threads ++ [thread]) thread.appId = live threads thread.appId + 1 := by
    rw [live_append, if_pos ⟨rfl, runs⟩]
  have before := counted.numRuns
  rw [if_neg (Nat.ne_of_gt some)] at before
  refine ⟨?_, ?_, counted.exits.trans numRuns.symm⟩
  · rw [numThreads, one, counted.numThreads]
  · rw [numRuns, one, if_neg (Nat.succ_ne_zero _)]
    exact before

theorem Counted.first {threads : List TraceThread} {hooks : List Hook} {new : AppInfo} (runs : thread.stopped = false)
    (counted : Counted threads hooks thread.appId info) (none_ : live threads thread.appId = 0)
    (numThreads : new.numThreads = 1) (numRuns : new.numRuns = info.numRuns) :
    Counted (threads ++ [thread]) (hooks ++ [.applicationStart thread.appId]) thread.appId new := by
  have one : live (threads ++ [thread]) thread.appId = 1 := by
    rw [live_append, if_pos ⟨rfl, runs⟩, none_]
  have before := counted.numRuns
  rw [if_pos none_] at before
  refine ⟨numThreads.trans one.symm, ?_, ?_⟩
  · rw [numRuns, one, startsOf_start, if_pos rfl, ← before]
    rfl
  · rw [exitsOf_start, counted.exits, numRuns]

theorem Sound.startThread {hooks : List Hook} {new : AppInfo} (sound : Sound config extra state)
    (known : state.appInfo[thread.appId]? = some info) (runs : thread.stopped = false) (same : new.numRuns = info.numRuns)
    (starts : ∀ appId, appId ≠ thread.appId → startsOf hooks appId = startsOf state.hooks appId)
    (exits : ∀ appId, exitsOf hooks appId = exitsOf state.hooks appId)
    (numbered : ∀ other ∈ state.threads ++ [thread], other.stopped = false → other.run = startsOf hooks other.appId)
    (own : Counted (state.threads ++ [thread]) hooks thread.appId new) :
    Sound config extra { state with
      appInfo := state.appInfo.set thread.appId new
      hooks := hooks
      numThreadsRunning := state.numThreadsRunning + 1
      threads := state.threads ++ [thread] } := by
  have inside := sound.known known
  have counts := sound.counted_set own fun appId info different counted => by
    have same : live (state.threads ++ [thread]) appId = live state.threads appId := by
      rw [live_append, if_neg fun isOwn => different isOwn.1.symm, Nat.add_zero]
    refine ⟨counted.numThreads.trans same.symm, ?_, (exits appId).trans counted.exits⟩
    rw [same, counted.numRuns, starts appId different]
  constructor
  case size =>
    rw [List.length_set]
    exact sound.size
  case tables => exact sound.tables
  case apps =>
    intro other member
    cases List.mem_append.mp member with
    | inl old => exact sound.apps other old
    | inr new =>
      cases List.mem_singleton.mp new
      exact inside
  case numThreads => exact fun appId info found => (counts appId info found).numThreads
  case running =>
    have running := sound.running
    rw [alive_append, if_pos runs]
    dsimp only
    omega
  case unknown =>
    intro appId beyond
    have different : appId ≠ thread.appId := by
      have beyond : state.numApps ≤ appId := beyond
      omega
    rw [starts appId different, exits appId]
    exact sound.unknown appId beyond
  case runs => exact numbered
  case numRuns => exact fun appId info found => (counts appId info found).numRuns
  case exits => exact fun appId info found => (counts appId info found).exits
  case nonfinish => exact sound.nonfinish.trans (countP_numRuns_set new known same).symm

theorem newThread_sound {first initFifo : Bool} (sound : Sound config extra state)
    (created : newThread config appId first initFifo state = .ok next)
    (fits : if first then live state.threads appId = 0 else 0 < live state.threads appId) : Sound config extra next := by
  obtain ⟨info, names, known, found, rfl⟩ := newThread_cases created
  have before := sound.counted found
  have starts (other : Nat) (different : other ≠ appId) :
      startsOf (state.hooks ++ [.applicationStart appId]) other = startsOf state.hooks other := by
    rw [startsOf_start, if_neg (Ne.symm different), Nat.add_zero]
  cases first with
  | false =>
    refine sound.startThread found rfl rfl (fun _ _ => rfl) (fun _ => rfl) ?_ (before.another rfl fits rfl rfl)
    intro other member runs
    cases List.mem_append.mp member with
    | inl old => exact sound.runs other old runs
    | inr new =>
      cases List.mem_singleton.mp new
      rfl
  | true =>
    refine sound.startThread found rfl rfl starts (exitsOf_start _ _) ?_ (before.first rfl fits rfl rfl)
    intro other member runs
    cases List.mem_append.mp member with
    | inl old =>
      have different : other.appId ≠ appId := by
        intro same
        have some : 0 < live state.threads appId := List.countP_pos_iff.mpr ⟨other, old, by simp [same, runs]⟩
        exact Nat.ne_of_gt some fits
      exact (sound.runs other old runs).trans (starts _ different).symm
    | inr new =>
      cases List.mem_singleton.mp new
      rfl

theorem newThread_due {first initFifo : Bool} (created : newThread config appId first initFifo state = .ok next) (due : Due state) :
    Due next := by
  obtain ⟨info, names, known, found, rfl⟩ := newThread_cases created
  exact due

theorem Sound.stop (sound : Sound config extra state) : Sound config extra (TraceManager.stop state) where
  size := sound.size
  tables := sound.tables
  apps := by
    intro thread member
    obtain ⟨old, held, rfl⟩ := List.mem_map.mp member
    exact sound.apps old held
  numThreads appId info found := by
    rw [sound.numThreads appId info found]
    exact live_map_stop.symm
  running := sound.running.trans (congrArg (fun count => count + extra) alive_map_stop.symm)
  unknown := sound.unknown
  runs := by
    intro thread member runs
    obtain ⟨old, held, rfl⟩ := List.mem_map.mp member
    exact sound.runs old held runs
  numRuns appId info found := by
    have before := sound.numRuns appId info found
    rw [← live_map_stop] at before
    exact before
  exits := sound.exits
  nonfinish := sound.nonfinish

/-- The state in which the first thread of a new application is created. -/
def State.addApplication (state : State) : State :=
  { state with
    numApps := state.numApps + 1
    numAppsNonfinish := state.numAppsNonfinish + 1
    appInfo := state.appInfo ++ [⟨1, 0, 0⟩] }

theorem createApplication_eq (sound : Sound config extra state) :
    createApplication config state = newThread config state.numApps true true state.addApplication := by
  have size := sound.size
  have known : ¬state.numApps ≥ state.numApps + 1 := by omega
  unfold createApplication newThread State.addApplication
  rw [if_neg known, if_neg known]
  simp [← size, AppInfo.new]

theorem Sound.live_unknown (sound : Sound config extra state) (beyond : state.numApps ≤ appId) : live state.threads appId = 0 := by
  apply List.countP_eq_zero.mpr
  intro thread member
  have known := sound.apps thread member
  have different : thread.appId ≠ appId := by omega
  simp [different]

theorem addApplication_cases {list : List AppInfo} {new : AppInfo} (found : (list ++ [new])[appId]? = some info) :
    list[appId]? = some info ∨ appId = list.length ∧ info = new := by
  obtain ⟨inside, same⟩ := List.getElem?_eq_some_iff.mp found
  rw [List.length_append] at inside
  by_cases old : appId < list.length
  · rw [List.getElem?_append_left old] at found
    exact .inl found
  · have last : appId = list.length := by
      have inside : appId < list.length + 1 := inside
      omega
    subst last
    rw [List.getElem?_append_right (Nat.le_refl _), Nat.sub_self] at found
    exact .inr ⟨rfl, (Option.some.inj found).symm⟩

theorem Sound.addApplication (sound : Sound config extra state) : Sound config extra state.addApplication := by
  have size := sound.size
  have none_ := sound.live_unknown (Nat.le_refl _)
  have unknown := sound.unknown _ (Nat.le_refl _)
  constructor
  case size => simp [State.addApplication, size]
  case tables => exact Nat.le_succ_of_le sound.tables
  case apps => exact fun thread member => Nat.lt_succ_of_lt (sound.apps thread member)
  case numThreads =>
    intro appId info found
    obtain old | ⟨rfl, rfl⟩ := addApplication_cases found
    · exact sound.numThreads appId info old
    · rw [size]
      exact none_.symm
  case running => exact sound.running
  case unknown => exact fun appId beyond => sound.unknown appId (Nat.le_of_succ_le beyond)
  case runs => exact sound.runs
  case numRuns =>
    intro appId info found
    obtain old | ⟨rfl, rfl⟩ := addApplication_cases found
    · exact sound.numRuns appId info old
    · rw [size]
      simp [State.addApplication, none_, unknown.1]
  case exits =>
    intro appId info found
    obtain old | ⟨rfl, rfl⟩ := addApplication_cases found
    · exact sound.exits appId info old
    · rw [size]
      exact unknown.2
  case nonfinish => simp [State.addApplication, List.countP_append, sound.nonfinish]

theorem createApplication_sound (sound : Sound config extra state) (created : createApplication config state = .ok next) :
    Sound config extra next ∧ Due next := by
  rw [createApplication_eq sound] at created
  have none_ := sound.live_unknown (Nat.le_refl _)
  have due : Due state.addApplication := fun _ zero => absurd zero (Nat.succ_ne_zero _)
  exact ⟨newThread_sound sound.addApplication created none_, newThread_due created due⟩

/-! ## Threads that stop -/

/-- The thread that stops is the last one of its application. -/
def Last (state : State) (thread : TraceThread) : Prop := thread.stopped = false ∧ live state.threads thread.appId = 1

theorem Sound.stopThread {hooks : List Hook} {new : AppInfo} {nonfinish : Nat} (sound : Sound config 0 state)
    (found : state.threads[index]? = some thread) (runs : thread.stopped = false)
    (starts : ∀ appId, startsOf hooks appId = startsOf state.hooks appId)
    (exits : ∀ appId, appId ≠ thread.appId → exitsOf hooks appId = exitsOf state.hooks appId)
    (own : Counted (state.threads.set index { thread with stopped := true }) hooks thread.appId new)
    (unfinished : nonfinish = (state.appInfo.set thread.appId new).countP fun info => info.numRuns = 0) :
    Sound config 1 { state with
      threads := state.threads.set index { thread with stopped := true }
      appInfo := state.appInfo.set thread.appId new
      hooks := hooks
      numAppsNonfinish := nonfinish } := by
  have inside := sound.apps thread (List.mem_of_getElem? found)
  have counts := sound.counted_set own fun appId info different counted => by
    have same := @live_set_stopped index state.threads thread appId found runs
    rw [if_neg (Ne.symm different), Nat.add_zero] at same
    refine ⟨counted.numThreads.trans same.symm, ?_, (exits appId different).trans counted.exits⟩
    rw [same, counted.numRuns, starts]
  constructor
  case size =>
    rw [List.length_set]
    exact sound.size
  case tables => exact sound.tables
  case apps =>
    intro other member
    obtain old | same := List.mem_or_eq_of_mem_set member
    · exact sound.apps other old
    · subst same
      exact inside
  case numThreads => exact fun appId info found => (counts appId info found).numThreads
  case running =>
    have before := sound.running
    have after := alive_set_stopped found runs
    dsimp only
    omega
  case unknown =>
    intro appId beyond
    have different : appId ≠ thread.appId := by
      have beyond : state.numApps ≤ appId := beyond
      omega
    rw [starts, exits appId different]
    exact sound.unknown appId beyond
  case runs =>
    intro other member running
    rw [starts]
    obtain old | same := List.mem_or_eq_of_mem_set member
    · exact sound.runs other old running
    · subst same
      cases running
  case numRuns => exact fun appId info found => (counts appId info found).numRuns
  case exits => exact fun appId info found => (counts appId info found).exits
  case nonfinish => exact unfinished

theorem leave_sound (sound : Sound config 0 state) (found : state.threads[index]? = some thread) (runs : thread.stopped = false)
    (others : live state.threads thread.appId ≠ 1) (known : state.appInfo[thread.appId]? = some info) :
    Sound config 1 { state with
      threads := state.threads.set index { thread with stopped := true }
      appInfo := state.appInfo.set thread.appId { info with numThreads := info.numThreads - 1 } } := by
  have pos := live_pos found runs
  have before := sound.counted known
  have after := @live_set_stopped index state.threads thread thread.appId found runs
  rw [if_pos rfl] at after
  refine sound.stopThread found runs (fun _ => rfl) (fun _ _ => rfl) ⟨?_, ?_, before.exits⟩ ?_
  · have numThreads := before.numThreads
    dsimp only
    omega
  · have numRuns := before.numRuns
    rw [if_neg (by omega)] at numRuns
    rw [if_neg (by omega)]
    exact numRuns
  · have same := countP_numRuns_set { info with numThreads := info.numThreads - 1 } known rfl
    exact sound.nonfinish.trans same.symm

theorem finish_sound (sound : Sound config 0 state) (found : state.threads[index]? = some thread) (last : Last state thread)
    (known : state.appInfo[thread.appId]? = some info) :
    Sound config 1 { state with
      threads := state.threads.set index { thread with stopped := true }
      appInfo := state.appInfo.set thread.appId { info with numThreads := 0, numRuns := info.numRuns + 1 }
      hooks := state.hooks ++ [.applicationExit thread.appId]
      numAppsNonfinish := if info.numRuns + 1 = 1 then state.numAppsNonfinish - 1 else state.numAppsNonfinish } := by
  obtain ⟨runs, alone⟩ := last
  have before := sound.counted known
  have none_ := @live_set_stopped index state.threads thread thread.appId found runs
  rw [if_pos rfl, alone] at none_
  have none_ := Nat.succ.inj none_
  have exits (appId : Nat) (different : appId ≠ thread.appId) :
      exitsOf (state.hooks ++ [.applicationExit thread.appId]) appId = exitsOf state.hooks appId := by
    rw [exitsOf_exit, if_neg (Ne.symm different), Nat.add_zero]
  refine sound.stopThread found runs (fun appId => startsOf_exit _ _ appId) exits ⟨none_.symm, ?_, ?_⟩ ?_
  · have numRuns := before.numRuns
    rw [alone] at numRuns
    rw [none_, startsOf_exit]
    exact numRuns
  · rw [exitsOf_exit, if_pos rfl, before.exits]
  · have counts := countP_set_add { info with numThreads := 0, numRuns := info.numRuns + 1 } known
      fun info => info.numRuns = 0
    have nonfinish := sound.nonfinish
    dsimp only at counts ⊢
    by_cases first : info.numRuns = 0
    · simp only [first, Nat.zero_add, decide_true, if_true, Nat.succ_ne_zero, decide_false, Bool.false_eq_true, if_false,
        Nat.add_zero] at counts ⊢
      omega
    · simp only [first, decide_false, Nat.succ_ne_zero, Bool.false_eq_true, if_false, Nat.add_zero] at counts ⊢
      rw [if_neg (by omega), nonfinish, counts]

/-- `signalDone` may be called: no thread that is the last one of its application is aborted, and a restart has an entry
in the table of trace files. -/
def Allowed (config : Config) (thread : TraceThread) (aborted : Bool) (state : State) : Prop :=
  Last state thread → aborted = false ∧ ∀ info, state.appInfo[thread.appId]? = some info →
    config.restartApps = true → config.stopWithFirstApp = false →
      state.numAppsNonfinish ≠ (if info.numRuns = 0 then 1 else 0) → thread.appId < config.numApps

theorem Sound.settle (sound : Sound config 1 state) :
    Sound config 0 { state with numThreadsRunning := state.numThreadsRunning - 1 } where
  size := sound.size
  tables := sound.tables
  apps := sound.apps
  numThreads := sound.numThreads
  running := by
    have running := sound.running
    dsimp only
    omega
  unknown := sound.unknown
  runs := sound.runs
  numRuns := sound.numRuns
  exits := sound.exits
  nonfinish := sound.nonfinish

/-- What follows the end of a run: the simulation stops, the application starts again, or neither. -/
def continueWith (config : Config) (appId : Nat) (finished : State) : Except Failure State :=
  if config.stopWithFirstApp then .ok (stop finished)
  else if finished.numAppsNonfinish = 0 then .ok (stop finished)
  else if config.restartApps then newThread config appId true false finished
  else .ok finished

theorem continueWith_meets (sound : Sound config 1 state) (none_ : live state.threads appId = 0) (known : appId < state.numApps)
    (inTable : config.restartApps = true → config.stopWithFirstApp = false → state.numAppsNonfinish ≠ 0 →
      appId < config.numApps) :
    ∃ next, continueWith config appId state = .ok next ∧ Sound config 1 next ∧ Due next := by
  unfold continueWith
  have stopped : Due (stop state) := fun _ _ => Nat.succ_pos _
  split
  case isTrue => exact ⟨_, rfl, sound.stop, stopped⟩
  case isFalse later =>
    split
    case isTrue => exact ⟨_, rfl, sound.stop, stopped⟩
    case isFalse unfinished =>
      have due : Due state := fun _ zero => absurd zero unfinished
      split
      case isTrue restarts =>
        have inside := inTable restarts (Bool.eq_false_iff.mpr later) unfinished
        obtain ⟨next, created⟩ := newThread_ok true false sound known fun _ _ => inside
        exact ⟨next, created, newThread_sound sound created none_, newThread_due created due⟩
      case isFalse => exact ⟨_, rfl, sound, due⟩

theorem signalDone_meets {aborted : Bool} (sound : Sound config 0 state) (due : Due state) (found : state.threads[index]? = some thread)
    (allowed : Allowed config thread aborted state) :
    ∃ next, signalDone config index aborted state = .ok next ∧ Sound config 0 next ∧ Due next := by
  unfold signalDone
  rw [found]
  dsimp only
  split
  case isTrue => exact ⟨state, rfl, sound, due⟩
  case isFalse running =>
    have runs : thread.stopped = false := Bool.eq_false_iff.mpr running
    have inside := sound.apps thread (List.mem_of_getElem? found)
    obtain ⟨info, known⟩ := sound.found inside
    have numThreads := sound.numThreads _ info known
    rw [known]
    dsimp only
    by_cases alone : live state.threads thread.appId = 1
    · obtain ⟨ends, inTable⟩ := allowed ⟨runs, alone⟩
      have finished := finish_sound sound found ⟨runs, alone⟩ known
      have none_ := @live_set_stopped index state.threads thread thread.appId found runs
      rw [if_pos rfl, alone] at none_
      have unfinished : (if info.numRuns + 1 = 1 then state.numAppsNonfinish - 1 else state.numAppsNonfinish) ≠ 0 →
          state.numAppsNonfinish ≠ (if info.numRuns = 0 then 1 else 0) := by
        intro some
        split at some <;> split <;> omega
      obtain ⟨next, continued, sound, due⟩ := continueWith_meets finished (Nat.succ.inj none_ : live _ thread.appId = 0) inside
        fun restarts later some => inTable info known restarts later (unfinished some)
      have counted : finishRun config thread.appId { state with
          threads := state.threads.set index { thread with stopped := true }
          appInfo := state.appInfo.set thread.appId { info with numThreads := info.numThreads - 1 } } = .ok next := by
        rw [← continued]
        unfold finishRun continueWith
        have size := (List.getElem?_eq_some_iff.mp known).1
        simp only [List.getElem?_set_self size, List.set_set, numThreads, alone, Nat.sub_self]
      rw [if_pos ⟨ends, by omega⟩, counted]
      exact ⟨_, rfl, sound.settle, due⟩
    · have pos := live_pos found runs
      have more : info.numThreads - 1 ≠ 0 := by omega
      rw [if_neg fun last => more last.2]
      exact ⟨_, rfl, (leave_sound sound found runs alone known).settle, due⟩

/-! ## Calls -/

theorem Sound.askStop (sound : Sound config extra state) (found : state.threads[index]? = some thread) :
    Sound config extra { state with threads := state.threads.set index { thread with stop := true } } := by
  constructor
  case size => exact sound.size
  case tables => exact sound.tables
  case apps =>
    intro other member
    obtain old | same := List.mem_or_eq_of_mem_set member
    · exact sound.apps other old
    · subst same
      exact sound.apps thread (List.mem_of_getElem? found)
  case numThreads =>
    intro appId info known
    rw [live_set_stop found]
    exact sound.numThreads appId info known
  case running =>
    rw [alive_set_stop found]
    exact sound.running
  case unknown => exact sound.unknown
  case runs =>
    intro other member runs
    obtain old | same := List.mem_or_eq_of_mem_set member
    · exact sound.runs other old runs
    · subst same
      exact sound.runs thread (List.mem_of_getElem? found) runs
  case numRuns =>
    intro appId info known
    rw [live_set_stop found]
    exact sound.numRuns appId info known
  case exits => exact sound.exits
  case nonfinish => exact sound.nonfinish

theorem abort_meets (sound : Sound config 0 state) (due : Due state) (found : state.threads[index]? = some thread)
    (others : ¬Last state thread) :
    ∃ next, abort config index state = .ok next ∧ Sound config 0 next ∧ Due next := by
  unfold abort
  rw [found]
  have inside := (List.getElem?_eq_some_iff.mp found).1
  have asked : (state.threads.set index { thread with stop := true })[index]? = some { thread with stop := true } :=
    List.getElem?_set_self inside
  apply signalDone_meets (sound.askStop found) due asked
  · intro last
    refine absurd ⟨last.1, ?_⟩ others
    have alone := last.2
    dsimp only at alone
    rw [live_set_stop found] at alone
    exact alone

/-- A thread is created for an application with a running thread, `endApplication` does not abort the last one, and
neither is the last one asked to stop before it ends; its loop goes on while `m_threads` stays where it is; a restart has
an entry in the table of trace files. -/
def Orderly (config : Config) (state : State) : Call → Prop
  | .createThread creator => ∀ thread, state.threads[creator]? = some thread → 0 < live state.threads thread.appId
  | .advance index => ∀ loop, state.ending[index]? = some loop → config.Valid state loop ∧
      ∀ thread other, state.threads[loop.thread]? = some thread → state.threads[loop.place]? = some other →
        other.appId = thread.appId → loop.place ≠ loop.thread → ¬Last state other
  | .signalDone index => ∀ thread, state.threads[index]? = some thread → Allowed config thread thread.stop state
  | .createApplication _ | .endApplication _ => True

theorem Sound.setEnding (sound : Sound config extra state) (ending : List EndLoop) :
    Sound config extra { state with ending := ending } :=
  ⟨sound.size, sound.tables, sound.apps, sound.numThreads, sound.running, sound.unknown, sound.runs, sound.numRuns, sound.exits,
    sound.nonfinish⟩

theorem step_meets {call : Call} (sound : Sound config 0 state) (due : Due state) (orderly : Orderly config state call) :
    step config state call = .error .noThread ∨ ∃ next, step config state call = .ok next ∧ Sound config 0 next ∧ Due next := by
  cases call with
  | createThread creator =>
    simp only [step, createThread]
    cases found : state.threads[creator]? with
    | none => exact .inl rfl
    | some thread =>
      have inside := sound.apps thread (List.mem_of_getElem? found)
      obtain ⟨next, created⟩ := newThread_ok false true sound inside (by simp)
      exact .inr ⟨next, created, newThread_sound sound created (orderly thread found), newThread_due created due⟩
  | createApplication _ =>
    have known : state.numApps < state.addApplication.numApps := Nat.lt_succ_self _
    obtain ⟨next, created⟩ := newThread_ok true true sound.addApplication known (by simp)
    rw [← createApplication_eq sound] at created
    exact .inr ⟨next, created, createApplication_sound sound created⟩
  | endApplication thread => exact .inr ⟨_, rfl, sound.setEnding _, due⟩
  | advance index =>
    simp only [step, advance]
    cases going : state.ending[index]? with
    | none => exact .inl rfl
    | some loop =>
      obtain ⟨valid, others⟩ := orderly loop going
      dsimp only
      rw [if_pos valid]
      cases calls : state.threads[loop.thread]? with
      | none => exact .inr ⟨_, rfl, sound.setEnding _, due⟩
      | some thread =>
        cases found : state.threads[loop.place]? with
        | none => exact .inr ⟨_, rfl, sound.setEnding _, due⟩
        | some other =>
          dsimp only
          split
          case isTrue same =>
            have others := others thread other calls found same.1 same.2
            exact .inr (abort_meets (sound.setEnding _) due found others)
          case isFalse => exact .inr ⟨_, rfl, sound.setEnding _, due⟩
  | signalDone index =>
    simp only [step]
    cases found : state.threads[index]? with
    | none => exact .inl rfl
    | some thread => exact .inr (signalDone_meets sound due found (orderly thread found))

/-! ## The first threads -/

/-- The state after the first threads of `count` applications have been created. -/
def State.begun (config : Config) (count : Nat) : State :=
  { State.new config with
    threads := (List.range count).map fun appId =>
      ⟨config.tracefiles.getD appId "", config.responsefiles.getD appId "", appId, false, false, 1⟩
    numThreadsRunning := count
    hooks := (List.range count).map .applicationStart }

theorem startsOf_begun (count appId : Nat) :
    startsOf ((List.range count).map .applicationStart) appId = if appId < count then 1 else 0 := by
  induction count with
  | zero => rfl
  | succ count ih =>
    rw [List.range_succ, List.map_append, List.map_singleton, startsOf_start, ih]
    split <;> split <;> split <;> omega

theorem live_begun (config : Config) (count appId : Nat) :
    live (State.begun config count).threads appId = if appId < count then 1 else 0 := by
  induction count with
  | zero => rfl
  | succ count ih =>
    simp only [State.begun, List.range_succ, List.map_append, List.map_singleton] at ih ⊢
    rw [live_append, ih]
    simp only [and_true]
    split <;> split <;> split <;> omega

theorem alive_begun (config : Config) (count : Nat) : alive (State.begun config count).threads = count := by
  induction count with
  | zero => rfl
  | succ count ih =>
    simp only [State.begun, List.range_succ, List.map_append, List.map_singleton] at ih ⊢
    rw [alive_append, ih]
    rfl

theorem files_begun (inside : appId < config.numApps) : files config appId 0 true false =
    some (config.tracefiles.getD appId "", config.responsefiles.getD appId "") := by
  have traces : appId < config.tracefiles.length := by simpa [Config.tracefiles] using inside
  have responses : appId < config.responsefiles.length := by simpa [Config.responsefiles] using inside
  have some : config.responsefiles.length ≠ 0 := by omega
  simp [files, some, List.getElem?_eq_getElem traces, List.getElem?_eq_getElem responses, List.getD_eq_getElem?_getD]

theorem newThread_begun (inside : appId < config.numApps) :
    newThread config appId true false (.begun config appId) = .ok (.begun config (appId + 1)) := by
  have known : ¬appId ≥ (State.begun config appId).numApps := Nat.not_le.mpr inside
  have found : (State.begun config appId).appInfo[appId]? = some .new := by
    simp [State.begun, State.new, inside]
  unfold newThread
  rw [if_neg known, found]
  simp only [if_true, files_begun inside]
  have starts : startsOf ((List.range appId).map .applicationStart ++ [.applicationStart appId]) appId = 1 := by
    rw [startsOf_start, startsOf_begun, if_neg (Nat.lt_irrefl _), if_pos rfl]
  simp [State.begun, State.new, List.range_succ, starts, AppInfo.new]

theorem init_begun (count first : Nat) (inside : first + count ≤ config.numApps) :
    init config (List.range' first count) (.begun config first) = .ok (.begun config (first + count)) := by
  induction count generalizing first with
  | zero => rfl
  | succ count ih =>
    rw [List.range'_succ, init, newThread_begun (by omega)]
    dsimp only
    rw [ih (first + 1) (by omega)]
    congr 2
    omega

theorem init_sound (started : init config (List.range config.numApps) (.new config) = .ok state) :
    Sound config 0 state ∧ Due state := by
  have begun := @init_begun config config.numApps 0 (by omega)
  rw [← List.range_eq_range', Nat.zero_add] at begun
  have same : State.begun config 0 = .new config := rfl
  rw [same, started] at begun
  cases begun
  constructor
  case right =>
    intro some zero
    exact absurd zero (Nat.ne_of_gt some)
  case left =>
    have news appId info (found : (State.begun config config.numApps).appInfo[appId]? = some info) :
        appId < config.numApps ∧ info = AppInfo.new := by
      obtain ⟨inside, value⟩ := List.getElem?_eq_some_iff.mp found
      simp only [State.begun, State.new, List.length_replicate, List.getElem_replicate] at inside value
      exact ⟨inside, value.symm⟩
    constructor
    case size => exact List.length_replicate
    case tables => exact Nat.le_refl _
    case apps =>
      intro thread member
      obtain ⟨appId, inside, rfl⟩ := List.mem_map.mp member
      exact List.mem_range.mp inside
    case numThreads =>
      intro appId info found
      obtain ⟨inside, rfl⟩ := news appId info found
      rw [live_begun, if_pos inside]
      rfl
    case running => exact (alive_begun config _).symm
    case unknown =>
      intro appId beyond
      constructor
      · exact (startsOf_begun _ _).trans (if_neg (Nat.not_lt.mpr beyond))
      · simp [exitsOf, State.begun, List.count_eq_zero]
    case runs =>
      intro thread member _
      obtain ⟨appId, inside, rfl⟩ := List.mem_map.mp member
      exact ((startsOf_begun _ _).trans (if_pos (List.mem_range.mp inside))).symm
    case numRuns =>
      intro appId info found
      obtain ⟨inside, rfl⟩ := news appId info found
      rw [live_begun, if_pos inside]
      exact ((startsOf_begun _ _).trans (if_pos inside)).symm
    case exits =>
      intro appId info found
      obtain ⟨-, rfl⟩ := news appId info found
      simp [exitsOf, State.begun, List.count_eq_zero, AppInfo.new]
    case nonfinish => simp [State.begun, State.new, AppInfo.new, List.countP_replicate]

/-! ## Runs -/

theorem Sound.completedRuns (sound : Sound config extra state) (found : state.appInfo[appId]? = some info) :
    state.completedRuns appId = info.numRuns := by
  have numRuns := sound.numRuns appId info found
  have stopped run (over_ : run + 1 ≠ startsOf state.hooks appId ∨ live state.threads appId = 0) :
      (state.threads.all fun thread => !(thread.appId == appId && thread.run == run + 1) || thread.stopped) = true := by
    apply List.all_eq_true.mpr
    intro thread member
    by_cases runs : thread.stopped = true
    · simp [runs]
    · have runs : thread.stopped = false := Bool.eq_false_iff.mpr runs
      have own := sound.runs thread member runs
      by_cases same : thread.appId = appId
      · have some : 0 < live state.threads appId := List.countP_pos_iff.mpr ⟨thread, member, by simp [same, runs]⟩
        rw [same] at own
        have other : thread.run ≠ run + 1 := by
          obtain later | none_ := over_
          · omega
          · omega
        simp [other]
      · simp [same]
  unfold State.completedRuns
  by_cases none_ : live state.threads appId = 0
  · rw [if_pos none_, Nat.add_zero] at numRuns
    rw [List.countP_eq_length.mpr, List.length_range, ← numRuns]
    exact fun run _ => stopped run (.inr none_)
  · rw [if_neg none_] at numRuns
    rw [← numRuns, List.range_succ, List.countP_append, List.countP_eq_length.mpr, List.length_range, List.countP_singleton,
      if_neg, Nat.add_zero]
    · intro all
      obtain ⟨thread, member, both⟩ := List.countP_pos_iff.mp (Nat.pos_of_ne_zero none_)
      have both : thread.appId = appId ∧ thread.stopped = false := by simpa using both
      have own := sound.runs thread member both.2
      rw [both.1, ← numRuns] at own
      have stops := List.all_eq_true.mp all thread member
      simp [both.1, both.2, own] at stops
    · intro run inside
      have inside := List.mem_range.mp inside
      exact stopped run (.inl (by omega))

structure LifeCycle (state : State) : Prop where
  /-- The threads of the current run of each application. -/
  numThreads : ∀ appId info, state.appInfo[appId]? = some info → info.numThreads = state.threads.countP fun thread =>
    thread.appId = appId ∧ thread.run = startsOf state.hooks appId ∧ thread.stopped = false
  numThreadsRunning : state.numThreadsRunning = state.threads.countP fun thread => thread.stopped = false
  numAppsNonfinish :
    state.numAppsNonfinish = (List.range state.numApps).countP fun appId => state.completedRuns appId = 0
  numRuns : ∀ appId < state.numApps, ∃ info, state.appInfo[appId]? = some info ∧
    info.numRuns = state.completedRuns appId ∧ exitsOf state.hooks appId = state.completedRuns appId
  stops : 0 < state.numApps → (∀ appId < state.numApps, 0 < state.completedRuns appId) → 0 < state.stops

theorem countP_range_getElem (list : List AppInfo) (test : AppInfo → Bool) (count : Nat → Bool)
    (same : ∀ appId info, list[appId]? = some info → count appId = test info) :
    (List.range list.length).countP count = list.countP test := by
  have values : list = (List.range list.length).map fun appId => list.getD appId .new := by
    apply List.ext_getElem
    · simp
    · intro appId inside _
      simp [List.getD_eq_getElem?_getD, inside]
  have counts : list.countP test = (List.range list.length).countP (test ∘ fun appId => list.getD appId .new) := by
    rw [← List.countP_map, ← values]
  rw [counts]
  apply List.countP_congr
  intro appId member
  have inside := List.mem_range.mp member
  rw [same appId _ (List.getElem?_eq_getElem inside)]
  simp [List.getD_eq_getElem?_getD, inside]

theorem Sound.lifeCycle (sound : Sound config 0 state) (due : Due state) : LifeCycle state := by
  have nonfinish : state.numAppsNonfinish = (List.range state.numApps).countP fun appId => state.completedRuns appId = 0 := by
    rw [sound.nonfinish, ← sound.size]
    refine (countP_range_getElem _ _ _ ?_).symm
    intro appId info found
    rw [sound.completedRuns found]
  constructor
  case numThreads =>
    intro appId info found
    rw [sound.numThreads appId info found, live]
    apply List.countP_congr
    intro thread member
    have own := sound.runs thread member
    simp only [decide_eq_true_eq]
    constructor
    · intro both
      have own := own both.2
      rw [both.1] at own
      exact ⟨both.1, own, both.2⟩
    · exact fun all => ⟨all.1, all.2.2⟩
  case numThreadsRunning => exact sound.running
  case numAppsNonfinish => exact nonfinish
  case numRuns =>
    intro appId inside
    obtain ⟨info, found⟩ := sound.found inside
    have completed := sound.completedRuns found
    exact ⟨info, found, completed.symm, (sound.exits appId info found).trans completed.symm⟩
  case stops =>
    intro some all
    apply due some
    rw [nonfinish, List.countP_eq_zero]
    intro appId member
    have pos := all appId (List.mem_range.mp member)
    simp only [decide_eq_true_eq]
    omega

/-- In orderly runs the counts are right and no table is indexed out of range. -/
theorem lifeCycle_right (config : Config) {state : State} (reached : (machine config).Reach (Orderly config) state) :
    LifeCycle state ∧ ∀ call, Orderly config state call → ∀ failure, step config state call = .error failure → failure = .noThread := by
  have sound : Sound config 0 state ∧ Due state := by
    refine reached.invariant (fun state => Sound config 0 state ∧ Due state) ?_ ?_
    · exact fun state started => init_sound started
    · intro state call next holds orderly stepped
      have stepped : step config state call = .ok next := stepped
      obtain failed | ⟨next', meets, sound⟩ := step_meets holds.1 holds.2 orderly
      · rw [failed] at stepped
        cases stepped
      · rw [meets] at stepped
        cases stepped
        exact sound
  refine ⟨sound.1.lifeCycle sound.2, fun call orderly failure failed => ?_⟩
  obtain none_ | ⟨next, meets, -⟩ := step_meets sound.1 sound.2 orderly
  · rw [none_] at failed
    cases failed
    rfl
  · rw [meets] at failed
    cases failed

/-- One application from a trace file, without a restart, where the storage of a vector doubles. -/
def oneApplication : Config := ⟨1, false, false, "", fun _ => "trace", fun size => size &&& (size - 1) = 0⟩

theorem init_oneApplication : init oneApplication (List.range oneApplication.numApps) (.new oneApplication) =
    .ok (.begun oneApplication 1) :=
  @newThread_begun oneApplication 0 Nat.one_pos ▸ rfl

/-- A thread aborts another one that its application has created, and ends. -/
theorem lifeCycle_right_twoThreads :
    ∃ state : State, state.numThreadsRunning = 0 ∧ state.stops = 1 ∧ LifeCycle state := by
  have started : (machine oneApplication).Reach (Orderly oneApplication) (.begun oneApplication 1) := .initial init_oneApplication
  have created := started.step (Call.createThread 0) (by intro thread found; cases found; decide) rfl
  have ends := created.step (Call.endApplication 0) trivial rfl
  have itself := ends.step (Call.advance 0) (by intro loop going; cases going; exact ⟨by decide, fun _ _ _ _ _ apart => absurd rfl apart⟩) rfl
  have other := itself.step (Call.advance 0)
    (by
      intro loop going
      cases going
      refine ⟨by decide, fun thread other _ found _ _ last => ?_⟩
      cases found
      exact absurd last.2 (by decide)) rfl
  have second := other.step (Call.signalDone 0)
    (by intro thread found last; cases found; exact ⟨rfl, fun info known restarts => absurd restarts (by decide)⟩) rfl
  exact ⟨_, rfl, rfl, (lifeCycle_right oneApplication second).1⟩

/-- Both threads of an application get to `exit_group` and abort each other: no run is counted.  An application that has
been created at run time has no entry in the table of trace files for its restart.  A thread that is created between two
rounds of `endApplication` moves `m_threads` away. -/
theorem lifeCycle_broken :
    (¬ ∀ config state, (machine config).Reachable state → LifeCycle state) ∧
      (∃ config state call, (machine config).Reachable state ∧ step config state call = .error .outOfRange) ∧
      ∃ config state call, (machine config).Reachable state ∧ step config state call = .error .invalidIterator := by
  refine ⟨?_, ?_, ?_⟩
  · intro right
    have started : (machine oneApplication).Reachable (.begun oneApplication 1) := .initial init_oneApplication
    have created := started.step (Call.createThread 0) trivial rfl
    have first := created.step (Call.endApplication 0) trivial rfl
    have second := first.step (Call.endApplication 1) trivial rfl
    have skipped := second.step (Call.advance 0) trivial rfl
    have aborted := skipped.step (Call.advance 0) trivial rfl
    have over_ := aborted.step (Call.advance 1) trivial rfl
    obtain ⟨info, found, counted, -⟩ := (right _ _ over_).numRuns 0 (by decide)
    cases found
    exact absurd counted (by decide)
  · have restarts : init { oneApplication with restartApps := true } (List.range 1) (.new { oneApplication with restartApps := true }) =
        .ok (.begun { oneApplication with restartApps := true } 1) :=
      @newThread_begun { oneApplication with restartApps := true } 0 Nat.one_pos ▸ rfl
    have started : (machine { oneApplication with restartApps := true }).Reachable _ := .initial restarts
    have created := started.step (Call.createApplication 0) trivial rfl
    exact ⟨_, _, Call.signalDone 1, created, rfl⟩
  · have started : (machine oneApplication).Reachable (.begun oneApplication 1) := .initial init_oneApplication
    have ends := started.step (Call.endApplication 0) trivial rfl
    have created := ends.step (Call.createThread 0) trivial rfl
    exact ⟨_, _, Call.advance 0, created, rfl⟩

end Sniper.System.TraceManager
