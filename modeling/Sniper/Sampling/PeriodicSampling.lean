import Sniper.Library.Machine

/-! `PeriodicSampling`: detailed intervals, with fast-forwarding and cache warmup between them.

The instructions per cycle that fast-forwarding assumes are left out: no decision depends on them. -/

namespace Sniper.Sampling

structure Config where
  detailedInterval : UInt64
  fastforwardInterval : UInt64
  fastforwardSyncInterval : UInt64
  warmupInterval : UInt64
  detailedWarmupInterval : UInt64
  randomPlacement : Bool
  randomStart : Bool
deriving DecidableEq, Repr

/-- One call of `enableFastForward`, and how long it is from the callback on. -/
structure Request where
  /-- `m_target_ffend` -/
  target : UInt64
  warmup : Bool
  length : UInt64
deriving DecidableEq, Repr

/-- `fastforward` and `warmup` are those of the manager.  The last four fields are not in the source: whether a subtraction has
wrapped, what has been requested since the last detailed interval and between each two before, and all offsets so far. -/
structure PeriodicSampling where
  randomOffset : UInt64
  randomStart : Bool
  periodicLast : UInt64
  fastforwardTimeRemaining : UInt64
  warmupTimeRemaining : UInt64
  detailedWarmupTimeRemaining : UInt64
  fastforward : Bool
  warmup : Bool
  wrapped : Bool
  requested : List Request
  cycles : List (List Request)
  offsets : List UInt64
deriving DecidableEq, Repr

inductive Fault where
  /-- "fastforward_sync_interval must be between 0 and max(fastforward_interval, warmup_interval)" -/
  | syncInterval
  /-- "Should not finish detailed simulation before detailed warmup is complete." -/
  | detailedWarmup
  /-- "No fastforwarding to be done" -/
  | noFastforwarding
  | divisionByZero
deriving DecidableEq, Repr

/-- `std::min` -/
def stdMin (first second : UInt64) : UInt64 := if second < first then second else first

/-- `std::max` -/
def stdMax (first second : UInt64) : UInt64 := if first < second then second else first

/-- The constructor; the number is what `m_prng` gives first. -/
def create (config : Config) (random : UInt32) : Except Fault PeriodicSampling :=
  if 0 < config.fastforwardSyncInterval ∧
      config.fastforwardSyncInterval ≤ stdMax config.fastforwardInterval config.warmupInterval then
    let offset :=
      if config.randomStart then
        (config.fastforwardInterval + config.warmupInterval) * (random % 100).toUInt64 / 100
      else 0
    .ok
      { randomOffset := offset
        randomStart := config.randomStart
        periodicLast := 0
        fastforwardTimeRemaining := 0
        warmupTimeRemaining := 0
        detailedWarmupTimeRemaining := 0
        fastforward := false
        warmup := false
        wrapped := false
        requested := []
        cycles := []
        offsets := [offset] }
  else .error .syncInterval

namespace PeriodicSampling

def enableFastForward (time length : UInt64) (warmup : Bool) (sampling : PeriodicSampling) : PeriodicSampling :=
  { sampling with
    fastforward := true
    warmup := warmup
    requested := sampling.requested ++ [⟨time + length, warmup, length⟩] }

def disableFastForward (sampling : PeriodicSampling) : PeriodicSampling :=
  { sampling with
    fastforward := false
    warmup := false
    requested := []
    cycles := sampling.cycles ++ [sampling.requested] }

/-- The next step, and whether there is none left. -/
def stepFastForward (config : Config) (time : UInt64) (sampling : PeriodicSampling) : Bool × PeriodicSampling :=
  if 0 < sampling.fastforwardTimeRemaining then
    let length := stdMin sampling.fastforwardTimeRemaining config.fastforwardSyncInterval
    let sampling :=
      if sampling.fastforwardTimeRemaining < length then { sampling with fastforwardTimeRemaining := 0 }
      else { sampling with
        fastforwardTimeRemaining := sampling.fastforwardTimeRemaining - length
        wrapped := sampling.wrapped || decide (sampling.fastforwardTimeRemaining < length) }
    (false, sampling.enableFastForward time length false)
  else if 0 < sampling.warmupTimeRemaining then
    let length := stdMin sampling.warmupTimeRemaining config.fastforwardSyncInterval
    let sampling :=
      if sampling.warmupTimeRemaining < length then { sampling with warmupTimeRemaining := 0 }
      else { sampling with
        warmupTimeRemaining := sampling.warmupTimeRemaining - length
        wrapped := sampling.wrapped || decide (sampling.warmupTimeRemaining < length) }
    (false, sampling.enableFastForward time length true)
  else (true, sampling)

/-- Where the next detailed interval is placed: what is left of the last cycle, and a new offset. -/
def placeInterval (config : Config) (random : UInt32) (sampling : PeriodicSampling) : Except Fault PeriodicSampling :=
  if config.randomPlacement then
    let cycle := config.fastforwardInterval + config.warmupInterval
    if cycle = 0 then .error .divisionByZero
    else
      let offset := (random.toUInt64 * config.fastforwardSyncInterval) % cycle
      .ok { sampling with
        fastforwardTimeRemaining := cycle - sampling.randomOffset + offset
        randomOffset := offset
        wrapped := sampling.wrapped || decide (cycle < sampling.randomOffset)
        offsets := sampling.offsets ++ [offset] }
  else .ok { sampling with fastforwardTimeRemaining := config.fastforwardInterval }

def callbackDetailed (config : Config) (time : UInt64) (random : UInt32) (sampling : PeriodicSampling) :
    Except Fault PeriodicSampling :=
  if sampling.randomStart then
    if time < sampling.randomOffset then .ok sampling
    else .ok { sampling with periodicLast := time, randomStart := false }
  else if time > sampling.periodicLast + config.detailedInterval then
    if sampling.detailedWarmupTimeRemaining ≠ 0 then .error .detailedWarmup
    else
      match placeInterval config random sampling with
      | .error fault => .error fault
      | .ok sampling =>
        let (done, sampling) := stepFastForward config time { sampling with warmupTimeRemaining := config.warmupInterval }
        if done then .error .noFastforwarding else .ok { sampling with periodicLast := time }
  else if 0 < sampling.detailedWarmupTimeRemaining ∧ time > sampling.periodicLast + config.detailedWarmupInterval then
    .ok { sampling with detailedWarmupTimeRemaining := 0 }
  else .ok sampling

def callbackFastForward (config : Config) (time : UInt64) (sampling : PeriodicSampling) : PeriodicSampling :=
  let (done, sampling) := stepFastForward config time sampling
  if done then
    let sampling := { sampling.disableFastForward with periodicLast := time }
    if 0 < config.detailedWarmupInterval then
      { sampling with detailedWarmupTimeRemaining := config.detailedWarmupInterval }
    else sampling
  else sampling

def periodic (config : Config) (time : UInt64) (random : UInt32) (sampling : PeriodicSampling) : Except Fault PeriodicSampling :=
  if sampling.fastforward then .ok (callbackFastForward config time sampling) else callbackDetailed config time random sampling

end PeriodicSampling

/-- A callback, and the number that `m_prng` gives if it is asked for one. -/
structure Callback where
  time : UInt64
  random : UInt32
deriving DecidableEq, Repr

def machine (config : Config) : Machine PeriodicSampling Callback Fault where
  initial sampling := ∃ random, create config random = .ok sampling
  step sampling callback := sampling.periodic config callback.time callback.random

end Sniper.Sampling
