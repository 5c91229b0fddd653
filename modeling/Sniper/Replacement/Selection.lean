import Sniper.Replacement.Search

/-! The policies that a configuration can name, and the ones that always replace a block that may be replaced. -/

namespace Sniper.Replacement

/-- `CacheBase::ReplacementPolicy`, as `CacheSet::parsePolicyType` reads it from the configuration. -/
inductive ReplacementPolicy where
  | roundRobin | lru | lruQbs | lruNew | lruL2 | lruL3 | phc | nru | mru | nmru | plru | srrip | srripQbs | random
deriving DecidableEq, Repr

structure Config where
  policy : ReplacementPolicy
  associativity : Nat
  /-- `qbs/attempts`. -/
  qbsAttempts : Nat
  /-- `srrip/bits`. -/
  srripBits : Nat
deriving DecidableEq, Repr

namespace Config

/-- `CacheSet::getNumQBSAttempts`, of type `UInt8`. -/
def getNumQBSAttempts (config : Config) : Nat :=
  match config.policy with
  | .lruQbs | .srripQbs => config.qbsAttempts % 256
  | _ => 1

/-- `m_rrip_max`, of type `UInt8`. -/
def rripMax (config : Config) : Nat := (2 ^ (config.srripBits % 256) - 1) % 256

def createCacheSet (config : Config) : Policy :=
  match config.policy with
  | .roundRobin => CacheSetRoundRobin config.associativity
  | .lru | .lruQbs => CacheSetLRU config.associativity config.getNumQBSAttempts
  | .lruNew => CacheSetLRUNEW config.associativity config.getNumQBSAttempts
  | .phc => CacheSetPHC config.associativity config.getNumQBSAttempts
  | .lruL3 => CacheSetLRUL3 config.associativity config.getNumQBSAttempts
  | .lruL2 => CacheSetLRUL2 config.associativity config.getNumQBSAttempts
  | .nru => CacheSetNRU config.associativity
  | .mru => CacheSetMRU config.associativity
  | .nmru => CacheSetNMRU config.associativity
  | .plru => CacheSetPLRU config.associativity
  | .srrip | .srripQbs => CacheSetSRRIP config.associativity config.rripMax config.getNumQBSAttempts
  | .random => CacheSetRandom config.associativity

/-- A cache has some ways, and `CacheSetPLRU` takes four or eight of them. -/
def Buildable (config : Config) : Prop :=
  0 < config.associativity ∧ (config.policy = .plru → config.associativity = 4 ∨ config.associativity = 8)

/-- The configurations whose policy always finds a block that may be replaced. -/
def Reliable (config : Config) : Prop :=
  match config.policy with
  | .mru => True
  | .nru => config.associativity ≤ 256
  | .random => config.associativity ≤ 32768
  | .roundRobin | .lru | .lruNew | .lruL2 | .lruL3 | .srrip => config.associativity = 1
  | .lruQbs => config.associativity = 1 ∧ config.getNumQBSAttempts ≠ 0
  | .srripQbs => config.associativity = 1 ∧ config.getNumQBSAttempts ≤ 1
  | .phc | .nmru | .plru => False

/-- A policy replaces a block that may be replaced, in all its states and for all full sets, if and only if the
configuration is reliable. -/
theorem createCacheSet_alwaysReplaces (config : Config) (built : config.Buildable) :
    config.createCacheSet.AlwaysReplaces ↔ config.Reliable := by
  obtain ⟨policy, associativity, qbsAttempts, srripBits⟩ := config
  obtain ⟨positive, sized⟩ := built
  have byte : (2 ^ (srripBits % 256) - 1) % 256 < 256 := Nat.mod_lt _ (by decide)
  cases policy with
  | roundRobin => exact roundRobin_alwaysReplaces positive
  | lru => exact (lru_alwaysReplaces positive).trans (and_iff_left Nat.one_ne_zero)
  | lruQbs => exact lru_alwaysReplaces positive
  | lruNew => exact lruNew_alwaysReplaces positive
  | lruL2 => exact lruL2_alwaysReplaces positive
  | lruL3 => exact lruL3_alwaysReplaces positive
  | phc => exact iff_false_intro (phc_alwaysReplaces positive)
  | nru => exact nru_alwaysReplaces positive
  | mru => exact iff_true_intro mru_alwaysReplaces
  | nmru => exact iff_false_intro (nmru_alwaysReplaces positive)
  | plru => exact iff_false_intro (plru_alwaysReplaces (sized rfl))
  | srrip => exact (srrip_alwaysReplaces positive byte).trans (and_iff_left Nat.le.refl)
  | srripQbs => exact srrip_alwaysReplaces positive byte
  | random => exact random_alwaysReplaces positive

/-- Sixteen ways and the policy `mru`. -/
theorem mru_sixteen_ways_alwaysReplaces :
    (Config.mk .mru 16 0 2).Buildable ∧ (Config.mk .mru 16 0 2).createCacheSet.AlwaysReplaces :=
  have built : (Config.mk .mru 16 0 2).Buildable := ⟨by decide, by rintro ⟨⟩⟩
  ⟨built, (createCacheSet_alwaysReplaces _ built).mpr trivial⟩

/-- Two lines are inserted, the first one is written and waits for its upgrade, the second one is read. -/
def upgradeThenRead : List Label :=
  [.insert plainCall .shared, .insert plainCall .shared, .access 0 1 0, .setCState 0 .sharedUpgrading, .access 1 0 0]

/-- The default policy with two ways then evicts the line that waits. -/
theorem lru_two_ways_evicts_upgrading :
    ∃ contents lruBits, (CacheSetLRU 2 1).machine.Reachable (contents, lruBits) ∧
      contents 0 = some .sharedUpgrading ∧ contents 1 = some .shared ∧
      ∃ after, (Config.mk .lru 2 1 2).createCacheSet.getReplacementIndex contents plainCall lruBits = .ok (after, 0) := by
  have starts : (CacheSetLRU 2 1).machine.Reachable ((fun _ => none), initialLruBits) := Policy.reachable_start rfl
  have ran : (CacheSetLRU 2 1).machine.run ((fun _ => none), initialLruBits) upgradeThenRead = .ok _ := rfl
  exact ⟨_, _, starts.run ran, rfl, rfl, _, rfl⟩

end Config

end Sniper.Replacement
