import Sniper.Directory.System

/-! One last-level cache seen from the directory.

The directory knows a cache by its `Role`: whether it counts as a sharer, what the
request in service waits for, and which request of the cache is queued.  `Local`
lists what the copy, the waiters and the two channels of a cache can look like in
each role.  The data in them satisfies `good`; `durable` says that DRAM, once it has
done the writes on their way, holds the value of the line. -/

namespace Sniper.Directory

variable {n : Nat} {V : Type}

inductive Await where
  | inv
  | flush
  | wb
  | upgrade
deriving DecidableEq

def Await.Sends : Await → DirMsg V → Prop
  | .inv, .invReq | .flush, .flushReq | .wb, .wbReq | .upgrade, .invReq | .upgrade, .flushReq => True
  | _, _ => False

inductive Role where
  | absent (queued : Option ReqType)
  | sharer (dstate : DState) (await : Option Await) (queued : Option ReqType)

/-- Invalidations go to shared lines, flushes for ownership to owned ones. -/
def Role.Fits : Role → Prop
  | .sharer dstate (some .inv) _ | .sharer dstate (some .upgrade) _ => dstate = .shared
  | .sharer dstate (some .flush) _ => dstate = .exclusive ∨ dstate = .modified
  | _ => True

def Role.Owned : Role → Prop
  | .sharer dstate _ _ => dstate = .exclusive ∨ dstate = .modified
  | .absent _ => False

def DirMsg.isRequest : DirMsg V → Bool
  | .invReq | .flushReq | .wbReq => true
  | .exRep _ | .shRep _ | .upgradeRep => false

/-- Requests that will find no copy. -/
def Stale (msgs : List (DirMsg V)) : Prop := ∀ msg ∈ msgs, msg.isRequest = true

def Outstanding : Option Await → List (DirMsg V) → Prop
  | none, msgs => msgs = []
  | some await, msgs => ∃ msg, msgs = [msg] ∧ await.Sends msg

/-- The first waiter is one that a request of the given type is for. -/
def Demands (msgType : ReqType) (waiters : List (MemOp V)) : Prop :=
  ∃ op rest, waiters = op :: rest ∧ (msgType ≠ .shReq → op.exclusive = true)

def requestFor (op : MemOp V) : ReqType := if op.exclusive then .exReq else .shReq

/-- A cache without a copy waits exactly when it has asked for one. -/
inductive Requesting : List (MemOp V) → List (CacheMsg V) → Prop where
  | idle : Requesting [] []
  | asked {op : MemOp V} {rest : List (MemOp V)} : Requesting (op :: rest) [.req (requestFor op)]

/-- Where the upgrade request of a cache is: on its way or queued. -/
inductive Upgrading : Option ReqType → List (CacheMsg V) → Prop where
  | sent : Upgrading none [.req .upgradeReq]
  | queued : Upgrading (some .upgradeReq) []

section Local

variable (good : LineBuf V → Prop) (durable : Prop)

/-- The message that tells the directory that a copy is gone. -/
inductive Loss (dstate : DState) (await : Option Await) : CacheMsg V → Prop where
  | invRep : dstate = .shared ∨ dstate = .exclusive → (dstate = .exclusive → durable) →
      Loss dstate await .invRep
  | flushRep {data : LineBuf V} : good data →
      (dstate = .exclusive ∨ dstate = .modified ∨ dstate = .shared ∧ await = some .upgrade) →
      Loss dstate await (.flushRep data)

inductive Fill : DState → List (MemOp V) → DirMsg V → Prop where
  | shared {data : LineBuf V} {waiters : List (MemOp V)} : good data → Demands .shReq waiters →
      Fill .shared waiters (.shRep data)
  | exclusive {data : LineBuf V} {waiters : List (MemOp V)} : good data → durable →
      Demands .shReq waiters → Fill .exclusive waiters (.exRep data)
  | modified {data : LineBuf V} {waiters : List (MemOp V)} : good data → Demands .exReq waiters →
      Fill .modified waiters (.exRep data)

inductive Holds : DState → CState → Prop where
  | shared : Holds .shared .shared
  | exclusive : durable → Holds .exclusive .exclusive
  | dirty {dstate : DState} : dstate = .exclusive ∨ dstate = .modified → Holds dstate .modified

inductive Local : Role → Llc V → List (CacheMsg V) → List (DirMsg V) → Prop where
  | absent {data : LineBuf V} {waiters : List (MemOp V)} {up : List (CacheMsg V)} {down : List (DirMsg V)} :
      Requesting waiters up → Stale down →
      Local (.absent none) { cstate := .invalid, data, waiters } up down
  | queued {msgType : ReqType} {data : LineBuf V} {waiters : List (MemOp V)} {down : List (DirMsg V)} :
      Demands msgType waiters → Stale down →
      Local (.absent (some msgType)) { cstate := .invalid, data, waiters } [] down
  | filled {dstate : DState} {await : Option Await} {data : LineBuf V} {waiters : List (MemOp V)}
      {stale out : List (DirMsg V)} {reply : DirMsg V} :
      Fill good durable dstate waiters reply → Stale stale → Outstanding await out →
      Local (.sharer dstate await none) { cstate := .invalid, data, waiters } [] (stale ++ reply :: out)
  | upgraded {await : Option Await} {data : LineBuf V} {waiters : List (MemOp V)} {out : List (DirMsg V)} :
      Demands .upgradeReq waiters → good data → Outstanding await out →
      Local (.sharer .modified await none) { cstate := .sharedUpgrading, data, waiters } []
        (.upgradeRep :: out)
  | holding {dstate : DState} {cstate : CState} {await : Option Await} {data : LineBuf V}
      {down : List (DirMsg V)} :
      Holds durable dstate cstate → good data → Outstanding await down →
      Local (.sharer dstate await none) { cstate, data, waiters := [] } [] down
  | upgrading {await : Option Await} {queued : Option ReqType} {data : LineBuf V}
      {waiters : List (MemOp V)} {up : List (CacheMsg V)} {down : List (DirMsg V)} :
      Demands .upgradeReq waiters → good data → Upgrading queued up → Outstanding await down →
      Local (.sharer .shared await queued) { cstate := .sharedUpgrading, data, waiters } up down
  | wroteBack {dstate : DState} {data sent : LineBuf V} :
      good data → good sent → (dstate ≠ .shared → durable) →
      Local (.sharer dstate (some .wb) none) { cstate := .shared, data, waiters := [] } [.wbRep sent] []
  | wroteBackUpgrading {dstate : DState} {data sent : LineBuf V} {waiters : List (MemOp V)} :
      Demands .upgradeReq waiters → good data → good sent → (dstate ≠ .shared → durable) →
      Local (.sharer dstate (some .wb) none) { cstate := .sharedUpgrading, data, waiters }
        [.wbRep sent, .req .upgradeReq] []
  | upgradingWroteBack {queued : Option ReqType} {data sent : LineBuf V} {waiters : List (MemOp V)}
      {up : List (CacheMsg V)} :
      Demands .upgradeReq waiters → good data → good sent → Upgrading queued up →
      Local (.sharer .shared (some .wb) queued) { cstate := .sharedUpgrading, data, waiters }
        (up ++ [.wbRep sent]) []
  | lost {dstate : DState} {await : Option Await} {data : LineBuf V} {waiters : List (MemOp V)}
      {loss : CacheMsg V} {up : List (CacheMsg V)} {down : List (DirMsg V)} :
      Loss good durable dstate await loss → Requesting waiters up →
      down = [] ∨ Outstanding await down →
      Local (.sharer dstate await none) { cstate := .invalid, data, waiters } (loss :: up) down
  | wroteBackLost {dstate : DState} {data sent : LineBuf V} {waiters : List (MemOp V)}
      {up : List (CacheMsg V)} :
      good sent → (dstate ≠ .shared → durable) → Requesting waiters up →
      Local (.sharer dstate (some .wb) none) { cstate := .invalid, data, waiters }
        (.wbRep sent :: .invRep :: up) []
  | upgradingLost {await : Await} {queued : Option ReqType} {data : LineBuf V} {waiters : List (MemOp V)}
      {loss : CacheMsg V} {up : List (CacheMsg V)} :
      Demands .upgradeReq waiters → Loss good durable .shared (some await) loss → Upgrading queued up →
      Local (.sharer .shared (some await) queued) { cstate := .invalid, data, waiters }
        (up ++ [loss]) []

end Local

section Monotone

variable {good better : LineBuf V → Prop} {durable lasting : Prop}

theorem Loss.mono {dstate : DState} {await : Option Await} {msg : CacheMsg V}
    (loss : Loss good durable dstate await msg)
    (data : ∀ buf, good buf → better buf) (memory : durable → lasting) :
    Loss better lasting dstate await msg := by
  cases loss with
  | invRep clean kept => exact .invRep clean fun exclusive => memory (kept exclusive)
  | flushRep sound owned => exact .flushRep (data _ sound) owned

theorem Fill.mono {dstate : DState} {waiters : List (MemOp V)} {msg : DirMsg V}
    (fill : Fill good durable dstate waiters msg)
    (data : ∀ buf, good buf → better buf) (memory : durable → lasting) :
    Fill better lasting dstate waiters msg := by
  cases fill with
  | shared sound demand => exact .shared (data _ sound) demand
  | exclusive sound kept demand => exact .exclusive (data _ sound) (memory kept) demand
  | modified sound demand => exact .modified (data _ sound) demand

theorem Holds.mono {dstate : DState} {cstate : CState} (holds : Holds durable dstate cstate)
    (memory : durable → lasting) : Holds lasting dstate cstate := by
  cases holds with
  | shared => exact .shared
  | exclusive kept => exact .exclusive (memory kept)
  | dirty owned => exact .dirty owned

theorem Local.mono {role : Role} {llc : Llc V} {up : List (CacheMsg V)} {down : List (DirMsg V)}
    (here : Local good durable role llc up down)
    (data : ∀ buf, good buf → better buf) (memory : durable → lasting) :
    Local better lasting role llc up down := by
  cases here with
  | absent requesting stale => exact .absent requesting stale
  | queued demand stale => exact .queued demand stale
  | filled fill stale out => exact .filled (fill.mono data memory) stale out
  | upgraded demand sound out => exact .upgraded demand (data _ sound) out
  | holding holds sound out => exact .holding (holds.mono memory) (data _ sound) out
  | upgrading demand sound asked out => exact .upgrading demand (data _ sound) asked out
  | wroteBack sound sent kept =>
    exact .wroteBack (data _ sound) (data _ sent) fun owned => memory (kept owned)
  | wroteBackUpgrading demand sound sent kept =>
    exact .wroteBackUpgrading demand (data _ sound) (data _ sent) fun owned => memory (kept owned)
  | upgradingWroteBack demand sound sent asked =>
    exact .upgradingWroteBack demand (data _ sound) (data _ sent) asked
  | lost loss requesting out => exact .lost (loss.mono data memory) requesting out
  | wroteBackLost sent kept requesting =>
    exact .wroteBackLost (data _ sent) (fun owned => memory (kept owned)) requesting
  | upgradingLost demand loss asked => exact .upgradingLost demand (loss.mono data memory) asked

theorem Local.of_absent {queued : Option ReqType} {llc : Llc V} {up : List (CacheMsg V)}
    {down : List (DirMsg V)} (here : Local good durable (.absent queued) llc up down) :
    Local better lasting (.absent queued) llc up down := by
  cases here with
  | absent requesting stale => exact .absent requesting stale
  | queued demand stale => exact .queued demand stale

end Monotone

section Moves

variable {good : LineBuf V → Prop} {durable : Prop} {role : Role} {llc : Llc V}
  {up : List (CacheMsg V)} {down : List (DirMsg V)}

theorem Await.Sends.isRequest {await : Await} {msg : DirMsg V} (sends : await.Sends msg) :
    msg.isRequest = true := by
  cases await <;> cases msg <;> first | rfl | exact sends.elim

theorem Outstanding.stale {await : Option Await} (out : Outstanding await down) : Stale down := by
  cases await with
  | none =>
    cases out
    rintro _ ⟨⟩
  | some await =>
    obtain ⟨msg, rfl, sends⟩ := out
    simpa [Stale] using sends.isRequest

theorem Stale.of_lost {await : Option Await} (out : down = [] ∨ Outstanding await down) : Stale down := by
  rcases out with rfl | out
  · rintro _ ⟨⟩
  · exact out.stale

theorem Local.pop_req {msgType : ReqType} (here : Local good durable role llc (.req msgType :: up) down) :
    (role = .absent none ∧ (msgType = .exReq ∨ msgType = .shReq) ∧
      Local good durable (.absent (some msgType)) llc up down) ∨
    (∃ await, role = .sharer .shared await none ∧ msgType = .upgradeReq ∧
      Local good durable (.sharer .shared await (some .upgradeReq)) llc up down) := by
  generalize sent : CacheMsg.req msgType :: up = msgs at here
  cases here with
  | absent requesting stale =>
    cases requesting with
    | idle => cases sent
    | @asked op rest =>
      cases sent
      refine .inl ⟨rfl, ?_, .queued ⟨op, rest, rfl, ?_⟩ stale⟩
      · unfold requestFor
        split <;> simp
      · unfold requestFor
        split <;> simp_all
  | upgrading demand sound asked out =>
    cases asked with
    | sent =>
      cases sent
      exact .inr ⟨_, rfl, rfl, .upgrading demand sound .queued out⟩
    | queued => cases sent
  | upgradingWroteBack demand sound reply asked =>
    cases asked with
    | sent =>
      cases sent
      exact .inr ⟨_, rfl, rfl, .upgradingWroteBack demand sound reply .queued⟩
    | queued => cases sent
  | upgradingLost demand loss asked =>
    cases asked with
    | sent =>
      cases sent
      exact .inr ⟨_, rfl, rfl, .upgradingLost demand loss .queued⟩
    | queued =>
      cases sent
      cases loss
  | lost loss =>
    cases sent
    cases loss
  | queued | filled | upgraded | holding | wroteBack | wroteBackUpgrading | wroteBackLost => cases sent

private theorem Local.pop_loss {loss : CacheMsg V} (here : Local good durable role llc (loss :: up) down)
    (kind : loss = .invRep ∨ ∃ data, loss = .flushRep data) :
    ∃ dstate await queued, role = .sharer dstate await queued ∧ Loss good durable dstate await loss ∧
      Local good durable (.absent queued) llc up down := by
  generalize sent : loss :: up = msgs at here
  cases here with
  | absent requesting stale =>
    cases requesting with
    | idle => cases sent
    | asked =>
      cases sent
      rcases kind with kind | ⟨_, kind⟩ <;> cases kind
  | upgrading demand sound asked out =>
    cases asked with
    | sent =>
      cases sent
      rcases kind with kind | ⟨_, kind⟩ <;> cases kind
    | queued => cases sent
  | upgradingWroteBack demand sound reply asked =>
    cases asked <;> cases sent <;> rcases kind with kind | ⟨_, kind⟩ <;> cases kind
  | upgradingLost demand loss asked =>
    cases asked with
    | sent =>
      cases sent
      rcases kind with kind | ⟨_, kind⟩ <;> cases kind
    | queued =>
      cases sent
      exact ⟨_, _, _, rfl, loss, .queued demand (by rintro _ ⟨⟩)⟩
  | lost loss requesting out =>
    cases sent
    exact ⟨_, _, _, rfl, loss, .absent requesting (.of_lost out)⟩
  | wroteBack | wroteBackUpgrading | wroteBackLost =>
    cases sent
    rcases kind with kind | ⟨_, kind⟩ <;> cases kind
  | queued | filled | upgraded | holding => cases sent

theorem Local.pop_invRep (here : Local good durable role llc (.invRep :: up) down) :
    ∃ dstate await queued, role = .sharer dstate await queued ∧
      (dstate = .shared ∨ dstate = .exclusive) ∧ (dstate = .exclusive → durable) ∧
      Local good durable (.absent queued) llc up down := by
  obtain ⟨dstate, await, queued, roleEq, loss, gone⟩ := here.pop_loss (.inl rfl)
  cases loss with
  | invRep clean kept => exact ⟨dstate, await, queued, roleEq, clean, kept, gone⟩

theorem Local.pop_flushRep {data : LineBuf V} (here : Local good durable role llc (.flushRep data :: up) down) :
    ∃ dstate await queued, role = .sharer dstate await queued ∧
      (dstate = .exclusive ∨ dstate = .modified ∨ dstate = .shared ∧ await = some .upgrade) ∧
      good data ∧ Local good durable (.absent queued) llc up down := by
  obtain ⟨dstate, await, queued, roleEq, loss, gone⟩ := here.pop_loss (.inr ⟨data, rfl⟩)
  cases loss with
  | flushRep sound owned => exact ⟨dstate, await, queued, roleEq, owned, sound, gone⟩

theorem Local.pop_wbRep {data : LineBuf V} (here : Local good durable role llc (.wbRep data :: up) down) :
    ∃ dstate queued, role = .sharer dstate (some .wb) queued ∧ good data ∧ (dstate ≠ .shared → durable) ∧
      Local good durable (.sharer .shared none queued) llc up down := by
  generalize sent : CacheMsg.wbRep data :: up = msgs at here
  cases here with
  | absent requesting stale => cases requesting <;> cases sent
  | upgrading demand sound asked out => cases asked <;> cases sent
  | wroteBack sound reply kept =>
    cases sent
    exact ⟨_, _, rfl, reply, kept, .holding .shared sound rfl⟩
  | wroteBackUpgrading demand sound reply kept =>
    cases sent
    exact ⟨_, _, rfl, reply, kept, .upgrading demand sound .sent rfl⟩
  | upgradingWroteBack demand sound reply asked =>
    cases asked with
    | sent => cases sent
    | queued =>
      cases sent
      exact ⟨_, _, rfl, reply, absurd rfl, .upgrading demand sound .queued rfl⟩
  | wroteBackLost reply kept requesting =>
    cases sent
    exact ⟨_, _, rfl, reply, kept, .lost (.invRep (.inl rfl) (by rintro ⟨⟩)) requesting (.inl rfl)⟩
  | lost loss =>
    cases sent
    cases loss
  | upgradingLost demand loss asked =>
    cases asked with
    | sent => cases sent
    | queued =>
      cases sent
      cases loss
  | queued | filled | upgraded | holding => cases sent

theorem Local.ask {dstate : DState} {queued : Option ReqType} {await : Option Await} {msgs : List (DirMsg V)}
    (here : Local good durable (.sharer dstate none queued) llc up down) (asked : Outstanding await msgs) :
    Local good durable (.sharer dstate await queued) llc up (down ++ msgs) := by
  cases here with
  | filled fill stale out =>
    cases out
    simpa using Local.filled fill stale asked
  | upgraded demand sound out =>
    cases out
    exact .upgraded demand sound asked
  | holding holds sound out =>
    cases out
    exact .holding holds sound asked
  | upgrading demand sound upgrade out =>
    cases out
    exact .upgrading demand sound upgrade asked
  | lost loss requesting out =>
    have empty : down = [] := out.elim id id
    subst empty
    refine .lost ?_ requesting (.inr asked)
    cases loss with
    | invRep clean kept => exact .invRep clean kept
    | flushRep sound owned =>
      refine .flushRep sound ?_
      rcases owned with owned | owned | ⟨_, owned⟩
      · exact .inl owned
      · exact .inr (.inl owned)
      · cases owned

theorem Local.grant {msgType : ReqType} {dstate : DState} {reply : DirMsg V}
    (here : Local good durable (.absent (some msgType)) llc up down)
    (fill : ∀ waiters, Demands msgType waiters → Fill good durable dstate waiters reply) :
    Local good durable (.sharer dstate none none) llc up (down ++ [reply]) := by
  cases here with
  | queued demand stale => exact .filled (fill _ demand) stale rfl

theorem Local.grant_upgrade
    (here : Local good durable (.sharer .shared none (some .upgradeReq)) llc up down) :
    Local good durable (.sharer .modified none none) llc up (down ++ [.upgradeRep]) := by
  cases here with
  | upgrading demand sound asked out =>
    cases asked
    cases out
    exact .upgraded demand sound rfl

theorem Local.queued_sharer {dstate : DState} {await : Option Await} {msgType : ReqType}
    (here : Local good durable (.sharer dstate await (some msgType)) llc up down) :
    msgType = .upgradeReq ∧ dstate = .shared := by
  cases here with
  | upgrading _ _ asked => cases asked; exact ⟨rfl, rfl⟩
  | upgradingWroteBack _ _ _ asked => cases asked; exact ⟨rfl, rfl⟩
  | upgradingLost _ _ asked => cases asked; exact ⟨rfl, rfl⟩

end Moves

end Sniper.Directory
