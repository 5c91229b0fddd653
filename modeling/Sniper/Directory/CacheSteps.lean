import Sniper.Directory.Local

/-! Every step of a last-level cache keeps its `Local` view.

The role of the cache does not change: it is the directory's, and the directory has
not moved. -/

namespace Sniper.Directory

variable {n : Nat} {V : Type}

/-- The data is the last value written, unless nothing is promised about data. -/
def Good (clean : Prop) (last : V) (data : LineBuf V) : Prop := clean → data = .bytes last

namespace Sys

/-- `after` differs from `before` only in what belongs to the cache. -/
structure Touches (before after : Sys n V) (cache : Fin n) : Prop where
  dir : after.dir = before.dir
  llc : ∀ other, other ≠ cache → after.llc other = before.llc other
  up : ∀ other, other ≠ cache → after.up other = before.up other
  fromDram : after.fromDram = before.fromDram
  dram : after.dram = before.dram

variable {sys before after later : Sys n V} {cache : Fin n}

theorem Touches.refl (sys : Sys n V) (cache : Fin n) : sys.Touches sys cache :=
  ⟨rfl, fun _ _ => rfl, fun _ _ => rfl, rfl, rfl⟩

theorem Touches.trans (first : before.Touches after cache) (second : after.Touches later cache) :
    before.Touches later cache where
  dir := second.dir.trans first.dir
  llc other different := (second.llc other different).trans (first.llc other different)
  up other different := (second.up other different).trans (first.up other different)
  fromDram := second.fromDram.trans first.fromDram
  dram := second.dram.trans first.dram

theorem setLlc_touches (sys : Sys n V) (cache : Fin n) (llc : Llc V) :
    sys.Touches (sys.setLlc cache llc) cache :=
  ⟨rfl, fun _ different => Function.update_of_ne different _ _, fun _ _ => rfl, rfl, rfl⟩

theorem send_touches (sys : Sys n V) (cache : Fin n) (msg : CacheMsg V) :
    sys.Touches (sys.send cache msg) cache :=
  ⟨rfl, fun _ _ => rfl, fun _ different => Function.update_of_ne different _ _, rfl, rfl⟩

theorem perform_touches (sys : Sys n V) (cache : Fin n) (op : MemOp V) :
    sys.Touches (sys.perform cache op) cache :=
  ⟨rfl, fun _ different => Function.update_of_ne different _ _, fun _ _ => rfl, rfl, rfl⟩

@[simp] theorem setLlc_llc (sys : Sys n V) (llc : Llc V) : (sys.setLlc cache llc).llc cache = llc := by
  simp [setLlc]

@[simp] theorem setLlc_up (sys : Sys n V) (llc : Llc V) : (sys.setLlc cache llc).up = sys.up := rfl

@[simp] theorem setLlc_last (sys : Sys n V) (llc : Llc V) : (sys.setLlc cache llc).last = sys.last := rfl

@[simp] theorem send_llc (sys : Sys n V) (msg : CacheMsg V) : (sys.send cache msg).llc = sys.llc := rfl

@[simp] theorem send_up (sys : Sys n V) (msg : CacheMsg V) :
    (sys.send cache msg).up cache = sys.up cache ++ [msg] := by
  simp [send]

@[simp] theorem send_last (sys : Sys n V) (msg : CacheMsg V) : (sys.send cache msg).last = sys.last := rfl

@[simp] theorem perform_llc (sys : Sys n V) (op : MemOp V) :
    (sys.perform cache op).llc cache =
      { sys.llc cache with data := (sys.llc cache).data.map op.apply } := by
  simp [perform]

@[simp] theorem perform_up (sys : Sys n V) (op : MemOp V) : (sys.perform cache op).up = sys.up := rfl

@[simp] theorem perform_last (sys : Sys n V) (op : MemOp V) :
    (sys.perform cache op).last = op.apply sys.last := rfl

/-- What a step of the cache leaves: it keeps the value of the line, or it is the
only sharer and has written. -/
def Carries (clean durable : Prop) (role : Role) (last : V) (after : Sys n V) (cache : Fin n)
    (down : List (DirMsg V)) : Prop :=
  after.last = last ∧ Local (Good clean last) durable role (after.llc cache) (after.up cache) down ∨
  role.Owned ∧ ∀ lasting, Local (Good clean after.last) lasting role (after.llc cache) (after.up cache) down

end Sys

open Sys

section Steps

variable {clean durable : Prop} {role : Role} {sys : Sys n V} {cache : Fin n} {op : MemOp V}
  {down : List (DirMsg V)}

theorem Good.perform {last : V} {data : LineBuf V} (good : Good clean last data) (op : MemOp V) :
    Good clean (op.apply last) (data.map op.apply) := by
  intro holds
  rw [good holds]
  rfl

theorem MemOp.apply_of_not_exclusive (shared : op.exclusive = false) (value : V) :
    op.apply value = value := by
  cases op with
  | read => rfl
  | readEx | write => simp [MemOp.exclusive] at shared

theorem Holds.owned {dstate : DState} {cstate : CState} (holds : Holds durable dstate cstate)
    (writable : cstate ≠ .shared) : dstate = .exclusive ∨ dstate = .modified := by
  cases holds with
  | shared => exact absurd rfl writable
  | exclusive => exact .inl rfl
  | dirty owned => exact owned

theorem Sys.Carries.keep {after : Sys n V} (value : after.last = sys.last)
    (here : Local (Good clean sys.last) durable role (after.llc cache) (after.up cache) down) :
    Carries clean durable role sys.last after cache down :=
  .inl ⟨value, here⟩

theorem Sys.Carries.write {value : V} {after : Sys n V} (owned : role.Owned)
    (later : Carries clean False role value after cache down) :
    Carries clean durable role sys.last after cache down := by
  refine .inr ⟨owned, fun lasting => ?_⟩
  rcases later with ⟨same, here⟩ | ⟨_, here⟩
  · rw [same]
    exact here.mono (fun _ sound => sound) False.elim
  · exact here lasting

theorem wakeWaiters_carries (durable : Prop) (sys : Sys n V) {dstate : DState} {cstate : CState}
    {await : Option Await} {data : LineBuf V} {waiters : List (MemOp V)}
    (holds : Holds durable dstate cstate) (good : Good clean sys.last data)
    (outstanding : Outstanding await down)
    (held : sys.llc cache = { cstate, data, waiters }) (sent : sys.up cache = []) :
    ∃ after, wakeWaiters cache waiters sys = .ok after ∧ sys.Touches after cache ∧
      Carries clean durable (.sharer dstate await none) sys.last after cache down := by
  induction waiters generalizing sys cstate data durable with
  | nil =>
    refine ⟨sys, rfl, .refl sys cache, .inl ⟨rfl, ?_⟩⟩
    rw [held, sent]
    exact .holding holds good outstanding
  | cons op rest ih =>
    cases exclusive : op.exclusive with
    | false =>
      have readable : operationPermissible op cstate = true := by
        cases holds <;> simp [operationPermissible, exclusive, CState.readable]
      have same : op.apply sys.last = sys.last := MemOp.apply_of_not_exclusive exclusive _
      let woken := (sys.setLlc cache { cstate, data, waiters := rest }).perform cache op
      obtain ⟨after, ran, touched, carries⟩ := ih durable woken holds (good.perform op)
        (by simp [woken]) (by simp [woken, sent])
      refine ⟨after, ?_, ((setLlc_touches ..).trans (perform_touches ..)).trans touched, ?_⟩
      · simpa [wakeWaiters, held, exclusive, readable, woken] using ran
      · have value : woken.last = sys.last := same
        rwa [value] at carries
    | true =>
      by_cases shared : cstate = .shared
      · subst shared
        cases holds
        refine ⟨sys.processUpgradeReqToDirectory cache, ?_, (setLlc_touches ..).trans (send_touches ..),
          .keep rfl ?_⟩
        · simp [wakeWaiters, held, exclusive]
        · simp only [processUpgradeReqToDirectory, send_llc, setLlc_llc, held, send_up, setLlc_up, sent]
          exact .upgrading ⟨op, rest, rfl, fun _ => exclusive⟩ good .sent outstanding
      · have owned := holds.owned shared
        let woken := (sys.setLlc cache { cstate := .modified, data, waiters := rest }).perform cache op
        obtain ⟨after, ran, touched, carries⟩ := ih False woken (.dirty owned)
          (good.perform op) (by simp [woken]) (by simp [woken, sent])
        refine ⟨after, ?_, ((setLlc_touches ..).trans (perform_touches ..)).trans touched,
          .write owned carries⟩
        have permitted : operationPermissible op cstate = true ∨ cstate = .exclusive := by
          cases holds <;> simp_all [operationPermissible, CState.writable]
        simpa [wakeWaiters, held, exclusive, shared, permitted, woken] using ran

theorem Demands.append {msgType : ReqType} {waiters : List (MemOp V)} (demand : Demands msgType waiters)
    (op : MemOp V) : Demands msgType (waiters ++ [op]) := by
  obtain ⟨front, rest, rfl, exclusive⟩ := demand
  exact ⟨front, rest ++ [op], rfl, exclusive⟩

theorem Demands.ne_nil {msgType : ReqType} {waiters : List (MemOp V)} (demand : Demands msgType waiters) :
    waiters ≠ [] := by
  obtain ⟨front, rest, rfl, _⟩ := demand
  exact List.cons_ne_nil front rest

theorem Requesting.append {waiters : List (MemOp V)} {up : List (CacheMsg V)}
    (requesting : Requesting waiters up) (waiting : waiters ≠ []) (op : MemOp V) :
    Requesting (waiters ++ [op]) up := by
  cases requesting with
  | idle => exact absurd rfl waiting
  | asked => exact .asked

theorem Fill.append {good : LineBuf V → Prop} {dstate : DState} {waiters : List (MemOp V)} {msg : DirMsg V}
    (fill : Fill good durable dstate waiters msg) (op : MemOp V) :
    Fill good durable dstate (waiters ++ [op]) msg := by
  cases fill with
  | shared sound demand => exact .shared sound (demand.append op)
  | exclusive sound kept demand => exact .exclusive sound kept (demand.append op)
  | modified sound demand => exact .modified sound (demand.append op)

theorem Local.append {good : LineBuf V → Prop} {llc : Llc V} {up : List (CacheMsg V)}
    (here : Local good durable role llc up down) (waiting : llc.waiters ≠ []) (op : MemOp V) :
    (llc.cstate = .invalid ∨ llc.cstate = .sharedUpgrading) ∧
      Local good durable role { llc with waiters := llc.waiters ++ [op] } up down := by
  cases here with
  | absent requesting stale => exact ⟨.inl rfl, .absent (requesting.append waiting op) stale⟩
  | queued demand stale => exact ⟨.inl rfl, .queued (demand.append op) stale⟩
  | filled fill stale out => exact ⟨.inl rfl, .filled (fill.append op) stale out⟩
  | upgraded demand sound out => exact ⟨.inr rfl, .upgraded (demand.append op) sound out⟩
  | holding | wroteBack => exact absurd rfl waiting
  | upgrading demand sound asked out => exact ⟨.inr rfl, .upgrading (demand.append op) sound asked out⟩
  | wroteBackUpgrading demand sound sent kept =>
    exact ⟨.inr rfl, .wroteBackUpgrading (demand.append op) sound sent kept⟩
  | upgradingWroteBack demand sound sent asked =>
    exact ⟨.inr rfl, .upgradingWroteBack (demand.append op) sound sent asked⟩
  | lost loss requesting out => exact ⟨.inl rfl, .lost loss (requesting.append waiting op) out⟩
  | wroteBackLost sent kept requesting =>
    exact ⟨.inl rfl, .wroteBackLost sent kept (requesting.append waiting op)⟩
  | upgradingLost demand loss asked => exact ⟨.inl rfl, .upgradingLost (demand.append op) loss asked⟩

theorem Local.settled {good : LineBuf V → Prop} {llc : Llc V} {up : List (CacheMsg V)}
    (here : Local good durable role llc up down) (none : llc.waiters = []) :
    (llc.cstate = .invalid ∧ ∀ op, Local good durable role { llc with waiters := [op] }
        (up ++ [.req (requestFor op)]) down) ∨
      (∃ dstate await, role = .sharer dstate await Option.none ∧ up = [] ∧
        Holds durable dstate llc.cstate ∧ good llc.data ∧ Outstanding await down) ∨
      (∃ dstate sent, role = .sharer dstate (some .wb) Option.none ∧ up = [.wbRep sent] ∧ down = [] ∧
        llc.cstate = .shared ∧ good llc.data ∧ good sent ∧ (dstate ≠ .shared → durable)) := by
  cases here with
  | absent requesting stale =>
    cases requesting with
    | idle => exact .inl ⟨rfl, fun op => .absent .asked stale⟩
    | asked => simp at none
  | queued demand stale => exact absurd none demand.ne_nil
  | filled fill stale out =>
    cases fill with
    | shared _ demand | exclusive _ _ demand | modified _ demand => exact absurd none demand.ne_nil
  | upgraded demand | upgrading demand | wroteBackUpgrading demand | upgradingWroteBack demand
  | upgradingLost demand => exact absurd none demand.ne_nil
  | holding holds sound out => exact .inr (.inl ⟨_, _, rfl, rfl, holds, sound, out⟩)
  | wroteBack sound sent kept => exact .inr (.inr ⟨_, _, rfl, rfl, rfl, rfl, sound, sent, kept⟩)
  | lost loss requesting out =>
    cases requesting with
    | idle => exact .inl ⟨rfl, fun op => .lost loss .asked out⟩
    | asked => simp at none
  | wroteBackLost sent kept requesting =>
    cases requesting with
    | idle => exact .inl ⟨rfl, fun op => .wroteBackLost sent kept .asked⟩
    | asked => simp at none

private theorem miss_append (waiting : (sys.llc cache).waiters ≠ [])
    (unreadable : (sys.llc cache).cstate = .invalid ∨ (sys.llc cache).cstate = .sharedUpgrading) :
    sys.processShmemReqFromPrevCache cache op =
      .ok (sys.setLlc cache { sys.llc cache with waiters := (sys.llc cache).waiters ++ [op] }) := by
  have busy : (sys.llc cache).waiters.isEmpty = false := by
    simpa using waiting
  rcases unreadable with state | state <;>
    simp [processShmemReqFromPrevCache, operationPermissible, state, CState.readable, CState.writable,
      initiateDirectoryAccess, busy]
  all_goals rfl

private theorem miss_invalid (none : (sys.llc cache).waiters = [])
    (state : (sys.llc cache).cstate = .invalid) :
    sys.processShmemReqFromPrevCache cache op =
      .ok ((sys.setLlc cache { sys.llc cache with waiters := [op] }).send cache (.req (requestFor op))) := by
  cases exclusive : op.exclusive <;>
    simp [processShmemReqFromPrevCache, operationPermissible, exclusive, state, CState.readable,
      CState.writable, initiateDirectoryAccess, none, requestFor]
  all_goals rfl

private theorem miss_shared (none : (sys.llc cache).waiters = [])
    (state : (sys.llc cache).cstate = .shared) (exclusive : op.exclusive = true) :
    sys.processShmemReqFromPrevCache cache op =
      .ok ((sys.setLlc cache { sys.llc cache with waiters := [op] }).processUpgradeReqToDirectory cache) := by
  simp [processShmemReqFromPrevCache, operationPermissible, exclusive, state, CState.writable,
    initiateDirectoryAccess, none]
  rfl

private theorem hit_read (state : (sys.llc cache).cstate.readable = true) (shared : op.exclusive = false) :
    sys.processShmemReqFromPrevCache cache op = .ok (sys.perform cache op) := by
  simp [processShmemReqFromPrevCache, operationPermissible, shared, state]

private theorem hit_exclusive (exclusive : op.exclusive = true)
    (state : (sys.llc cache).cstate = .exclusive ∨ (sys.llc cache).cstate = .modified) :
    sys.processShmemReqFromPrevCache cache op =
      .ok ((sys.setLlc cache { sys.llc cache with cstate := .modified }).perform cache op) := by
  rcases state with state | state
  · simp [processShmemReqFromPrevCache, operationPermissible, exclusive, state, CState.writable]
  · have same : sys.setLlc cache { sys.llc cache with cstate := .modified } = sys := by
      rw [← state, setLlc, Function.update_eq_self]
    simp [processShmemReqFromPrevCache, operationPermissible, exclusive, state, CState.writable, same]

private theorem perform_read (good : Good clean sys.last (sys.llc cache).data)
    (shared : op.exclusive = false)
    (here : ∀ data, Good clean sys.last data →
      Local (Good clean sys.last) durable role { sys.llc cache with data } (sys.up cache) down) :
    Carries clean durable role sys.last (sys.perform cache op) cache down := by
  have value : op.apply sys.last = sys.last := MemOp.apply_of_not_exclusive shared _
  refine .keep value ?_
  rw [perform_llc, perform_up]
  refine here _ ?_
  have performed := good.perform op
  rwa [value] at performed

theorem access_carries (op : MemOp V)
    (here : Local (Good clean sys.last) durable role (sys.llc cache) (sys.up cache) down) :
    ∃ after, sys.processShmemReqFromPrevCache cache op = .ok after ∧ sys.Touches after cache ∧
      Carries clean durable role sys.last after cache down := by
  by_cases waiters : (sys.llc cache).waiters = []
  · rcases here.settled waiters with ⟨invalid, requested⟩ |
        ⟨dstate, await, rfl, sent, holds, good, out⟩ |
        ⟨dstate, data, rfl, sent, delivered, state, good, reply, kept⟩
    · refine ⟨_, miss_invalid waiters invalid, (setLlc_touches ..).trans (send_touches ..), .keep rfl ?_⟩
      simpa using requested op
    · cases exclusive : op.exclusive with
      | false =>
        have readable : (sys.llc cache).cstate.readable = true := by
          generalize (sys.llc cache).cstate = cstate at holds
          cases holds <;> rfl
        refine ⟨_, hit_read readable exclusive, perform_touches .., perform_read good exclusive ?_⟩
        intro data sound
        simp only [sent, waiters]
        exact .holding holds sound out
      | true =>
        by_cases state : (sys.llc cache).cstate = .shared
        · refine ⟨_, miss_shared waiters state exclusive,
            (setLlc_touches ..).trans ((setLlc_touches ..).trans (send_touches ..)), .keep rfl ?_⟩
          rw [state] at holds
          cases holds
          simp only [processUpgradeReqToDirectory, send_llc, setLlc_llc, send_up, setLlc_up, sent]
          exact .upgrading ⟨op, [], rfl, fun _ => exclusive⟩ good .sent out
        · have writable : (sys.llc cache).cstate = .exclusive ∨ (sys.llc cache).cstate = .modified := by
            generalize (sys.llc cache).cstate = cstate at holds state
            cases holds <;> simp_all
          refine ⟨_, hit_exclusive exclusive writable, (setLlc_touches ..).trans (perform_touches ..),
            .inr ⟨holds.owned state, fun lasting => ?_⟩⟩
          simp only [perform_llc, setLlc_llc, perform_up, setLlc_up, sent, waiters, perform_last,
            setLlc_last]
          exact .holding (.dirty (holds.owned state)) (good.perform op) out
    · cases exclusive : op.exclusive with
      | false =>
        refine ⟨_, hit_read (by rw [state]; rfl) exclusive, perform_touches .., perform_read good exclusive ?_⟩
        intro data sound
        simp only [sent, waiters, delivered, state]
        exact .wroteBack sound reply kept
      | true =>
        refine ⟨_, miss_shared waiters state exclusive,
          (setLlc_touches ..).trans ((setLlc_touches ..).trans (send_touches ..)), .keep rfl ?_⟩
        simp only [processUpgradeReqToDirectory, send_llc, setLlc_llc, send_up, setLlc_up, sent, delivered]
        exact .wroteBackUpgrading ⟨op, [], rfl, fun _ => exclusive⟩ good reply kept
  · obtain ⟨unreadable, appended⟩ := here.append waiters op
    refine ⟨_, miss_append waiters unreadable, setLlc_touches .., .keep rfl ?_⟩
    simpa using appended

/-- The cache changes its line and sends one message. -/
private theorem sends_carries {llc : Llc V} {up : List (CacheMsg V)} {msg : CacheMsg V} (sent : sys.up cache = up)
    (here : Local (Good clean sys.last) durable role llc (up ++ [msg]) down) :
    sys.Touches ((sys.setLlc cache llc).send cache msg) cache ∧
      Carries clean durable role sys.last ((sys.setLlc cache llc).send cache msg) cache down := by
  refine ⟨(setLlc_touches ..).trans (send_touches ..), .keep rfl ?_⟩
  simpa only [send_llc, setLlc_llc, send_up, setLlc_up, sent] using here

theorem evict_carries {after : Sys n V}
    (here : Local (Good clean sys.last) durable role (sys.llc cache) (sys.up cache) down)
    (evicted : sys.evict cache = .ok after) :
    sys.Touches after cache ∧ Carries clean durable role sys.last after cache down := by
  generalize held : sys.llc cache = llc at here
  generalize sent : sys.up cache = up at here
  cases here with
  | holding holds sound out =>
    cases holds with
    | shared =>
      simp only [Sys.evict, held, Except.ok.injEq] at evicted
      subst evicted
      exact sends_carries sent (.lost (.invRep (.inl rfl) (by rintro ⟨⟩)) .idle (.inr out))
    | exclusive kept =>
      simp only [Sys.evict, held, Except.ok.injEq] at evicted
      subst evicted
      exact sends_carries sent (.lost (.invRep (.inr rfl) fun _ => kept) .idle (.inr out))
    | dirty owned =>
      simp only [Sys.evict, held, Except.ok.injEq] at evicted
      subst evicted
      exact sends_carries sent (.lost (.flushRep sound (owned.imp_right .inl)) .idle (.inr out))
  | wroteBack sound reply kept =>
    simp only [Sys.evict, held, Except.ok.injEq] at evicted
    subst evicted
    exact sends_carries sent (.wroteBackLost reply kept .idle)
  | absent | queued | filled | upgraded | upgrading | wroteBackUpgrading | upgradingWroteBack | lost
  | wroteBackLost | upgradingLost => simp [Sys.evict, held] at evicted

private theorem request_ignored {msg : DirMsg V} (request : msg.isRequest = true)
    (state : (sys.llc cache).cstate = .invalid) :
    sys.handleMsgFromDramDirectory cache msg = .ok sys := by
  cases msg with
  | exRep | shRep | upgradeRep => simp [DirMsg.isRequest] at request
  | invReq => simp [handleMsgFromDramDirectory, processInvReqFromDramDirectory, state]; rfl
  | flushReq => simp [handleMsgFromDramDirectory, processFlushReqFromDramDirectory, state]
  | wbReq => simp [handleMsgFromDramDirectory, processWbReqFromDramDirectory, state]

private theorem fill_carries {dstate : DState} {await : Option Await} {data : LineBuf V}
    {waiters : List (MemOp V)} {reply : DirMsg V}
    (fill : Fill (Good clean sys.last) durable dstate waiters reply) (out : Outstanding await down)
    (held : sys.llc cache = { cstate := .invalid, data, waiters }) (sent : sys.up cache = []) :
    ∃ after, sys.handleMsgFromDramDirectory cache reply = .ok after ∧ sys.Touches after cache ∧
      Carries clean durable (.sharer dstate await none) sys.last after cache down := by
  have starts (cstate : CState) (bytes : LineBuf V) (waiting : waiters ≠ []) :
      sys.processRepFromDramDirectory cache cstate bytes =
        wakeWaiters cache waiters (sys.setLlc cache { cstate, data := bytes, waiters }) := by
    simp [processRepFromDramDirectory, held, waiting]
  cases fill with
  | @shared bytes _ sound demand =>
    obtain ⟨after, ran, touched, carries⟩ := wakeWaiters_carries durable
      (sys.setLlc cache { cstate := .shared, data := bytes, waiters })
      .shared sound out (setLlc_llc ..) sent
    exact ⟨after, (starts .shared bytes demand.ne_nil).trans ran, (setLlc_touches ..).trans touched, carries⟩
  | @exclusive bytes _ sound kept demand =>
    obtain ⟨after, ran, touched, carries⟩ := wakeWaiters_carries durable
      (sys.setLlc cache { cstate := .exclusive, data := bytes, waiters })
      (.exclusive kept) sound out (setLlc_llc ..) sent
    exact ⟨after, (starts .exclusive bytes demand.ne_nil).trans ran, (setLlc_touches ..).trans touched,
      carries⟩
  | @modified bytes _ sound demand =>
    have waiting := demand.ne_nil
    obtain ⟨op, rest, rfl, wants⟩ := demand
    have exclusive := wants (by rintro ⟨⟩)
    let woken := (sys.setLlc cache { cstate := .modified, data := bytes, waiters := rest }).perform cache op
    obtain ⟨after, ran, touched, carries⟩ := wakeWaiters_carries False woken
      (.dirty (.inr rfl)) (sound.perform op) out (by simp [woken]; rfl) sent
    refine ⟨after, (starts .exclusive bytes waiting).trans ?_,
      ((setLlc_touches ..).trans (perform_touches ..)).trans touched, .write (.inr rfl) carries⟩
    simpa [wakeWaiters, exclusive, woken, setLlc] using ran

private theorem upgrade_carries {await : Option Await} {data : LineBuf V} {waiters : List (MemOp V)}
    (demand : Demands .upgradeReq waiters) (sound : Good clean sys.last data) (out : Outstanding await down)
    (held : sys.llc cache = { cstate := .sharedUpgrading, data, waiters }) (sent : sys.up cache = []) :
    ∃ after, sys.handleMsgFromDramDirectory cache .upgradeRep = .ok after ∧ sys.Touches after cache ∧
      Carries clean durable (.sharer .modified await none) sys.last after cache down := by
  obtain ⟨after, ran, touched, carries⟩ := wakeWaiters_carries durable
    (sys.setLlc cache { cstate := .modified, data, waiters })
    (.dirty (.inr rfl)) sound out (setLlc_llc ..) sent
  refine ⟨after, ?_, (setLlc_touches ..).trans touched, carries⟩
  have waiting : waiters.isEmpty = false := by
    simpa using demand.ne_nil
  simp only [handleMsgFromDramDirectory, processUpgradeRepFromDramDirectory, held, waiting]
  exact ran

private theorem answer_carries {dstate : DState} {cstate : CState} {await : Await} {data : LineBuf V}
    {msg : DirMsg V} (holds : Holds durable dstate cstate) (sound : Good clean sys.last data)
    (fits : (Role.sharer dstate (some await) none).Fits) (sends : await.Sends msg)
    (held : sys.llc cache = { cstate, data, waiters := [] }) (sent : sys.up cache = [])
    (memory : msg = .wbReq → cstate = .modified → durable) :
    ∃ after, sys.handleMsgFromDramDirectory cache msg = .ok after ∧ sys.Touches after cache ∧
      Carries clean durable (.sharer dstate (some await) none) sys.last after cache [] := by
  have copied : cstate ≠ .invalid ∧ cstate ≠ .sharedUpgrading := by
    cases holds <;> exact ⟨by rintro ⟨⟩, by rintro ⟨⟩⟩
  cases msg with
  | exRep | shRep | upgradeRep => cases sends.isRequest
  | invReq =>
    have shared : dstate = .shared := by
      cases await <;> first | exact fits | exact sends.elim
    subst shared
    have clean : cstate = .shared := by
      cases holds with
      | shared => rfl
      | dirty owned => rcases owned with owned | owned <;> cases owned
    subst clean
    refine ⟨(sys.setLlc cache { cstate := .invalid, data, waiters := [] }).send cache .invRep, ?_, sends_carries sent ?_⟩
    · simp [handleMsgFromDramDirectory, processInvReqFromDramDirectory, held]
    · exact .lost (.invRep (.inl rfl) (by rintro ⟨⟩)) .idle (.inl rfl)
  | flushReq =>
    refine ⟨(sys.setLlc cache { cstate := .invalid, data, waiters := [] }).send cache (.flushRep data), ?_, sends_carries sent ?_⟩
    · simp [handleMsgFromDramDirectory, processFlushReqFromDramDirectory, held, copied.1]
    · refine .lost (.flushRep sound ?_) .idle (.inl rfl)
      cases await with
      | inv | wb => exact sends.elim
      | flush => exact fits.imp_right .inl
      | upgrade => exact .inr (.inr ⟨fits, rfl⟩)
  | wbReq =>
    refine ⟨(sys.setLlc cache { cstate := .shared, data, waiters := [] }).send cache (.wbRep data), ?_, sends_carries sent ?_⟩
    · simp [handleMsgFromDramDirectory, processWbReqFromDramDirectory, held, copied.1, copied.2]
    · cases await with
      | inv | flush | upgrade => exact sends.elim
      | wb =>
        refine .wroteBack sound sound fun owned => ?_
        cases holds with
        | shared => exact absurd rfl owned
        | exclusive kept => exact kept
        | dirty => exact memory rfl rfl

private theorem answer_upgrading_carries {queued : Option ReqType} {await : Await} {data : LineBuf V}
    {waiters : List (MemOp V)} {up : List (CacheMsg V)} {msg : DirMsg V}
    (demand : Demands .upgradeReq waiters) (sound : Good clean sys.last data)
    (asked : Upgrading queued up) (fits : (Role.sharer .shared (some await) queued).Fits)
    (sends : await.Sends msg)
    (held : sys.llc cache = { cstate := .sharedUpgrading, data, waiters }) (sent : sys.up cache = up)
    (written : msg = .wbReq → Good clean sys.last .indeterminate) :
    ∃ after, sys.handleMsgFromDramDirectory cache msg = .ok after ∧ sys.Touches after cache ∧
      Carries clean durable (.sharer .shared (some await) queued) sys.last after cache [] := by
  cases msg with
  | exRep | shRep | upgradeRep => cases sends.isRequest
  | invReq =>
    refine ⟨(sys.setLlc cache { cstate := .invalid, data, waiters }).send cache .invRep, ?_, sends_carries sent ?_⟩
    · simp [handleMsgFromDramDirectory, processInvReqFromDramDirectory, held]
    · exact .upgradingLost demand (.invRep (.inl rfl) (by rintro ⟨⟩)) asked
  | flushReq =>
    refine ⟨(sys.setLlc cache { cstate := .invalid, data, waiters }).send cache (.flushRep data), ?_, sends_carries sent ?_⟩
    · simp [handleMsgFromDramDirectory, processFlushReqFromDramDirectory, held]
    · refine .upgradingLost demand (.flushRep sound (.inr (.inr ⟨rfl, ?_⟩))) asked
      cases await with
      | inv | wb => exact sends.elim
      | flush => rcases fits with fits | fits <;> cases fits
      | upgrade => rfl
  | wbReq =>
    refine ⟨sys.send cache (.wbRep .indeterminate), ?_, send_touches .., .keep rfl ?_⟩
    · simp [handleMsgFromDramDirectory, processWbReqFromDramDirectory, held]
    · simp only [send_llc, held, send_up, sent]
      cases await with
      | inv | flush | upgrade => exact sends.elim
      | wb => exact .upgradingWroteBack demand sound (written rfl) asked

theorem deliver_carries (sys : Sys n V) {msg : DirMsg V}
    (here : Local (Good clean sys.last) durable role (sys.llc cache) (sys.up cache) (msg :: down))
    (fits : role.Fits)
    (memory : msg = .wbReq → (sys.llc cache).cstate = .modified → durable)
    (written : msg = .wbReq → (sys.llc cache).cstate = .sharedUpgrading →
      Good clean sys.last .indeterminate) :
    ∃ after, sys.handleMsgFromDramDirectory cache msg = .ok after ∧ sys.Touches after cache ∧
      Carries clean durable role sys.last after cache down := by
  have ignore (request : msg.isRequest = true) (state : (sys.llc cache).cstate = .invalid)
      (here : Local (Good clean sys.last) durable role (sys.llc cache) (sys.up cache) down) :
      ∃ after, sys.handleMsgFromDramDirectory cache msg = .ok after ∧ sys.Touches after cache ∧
        Carries clean durable role sys.last after cache down :=
    ⟨sys, request_ignored request state, .refl sys cache, .keep rfl here⟩
  generalize held : sys.llc cache = llc at here memory written ignore
  generalize sent : sys.up cache = up at here ignore
  generalize delivered : msg :: down = pending at here
  cases here with
  | absent requesting stale =>
    subst delivered
    obtain ⟨request, stale⟩ := List.forall_mem_cons.mp stale
    exact ignore request rfl (.absent requesting stale)
  | queued demand stale =>
    subst delivered
    obtain ⟨request, stale⟩ := List.forall_mem_cons.mp stale
    exact ignore request rfl (.queued demand stale)
  | @filled _ _ _ _ stale _ _ fill old out =>
    cases stale with
    | nil =>
      cases delivered
      exact fill_carries fill out held sent
    | cons first rest =>
      cases delivered
      obtain ⟨request, old⟩ := List.forall_mem_cons.mp old
      exact ignore request rfl (.filled fill old out)
  | upgraded demand sound out =>
    cases delivered
    exact upgrade_carries demand sound out held sent
  | @holding _ _ await _ _ holds sound out =>
    subst delivered
    cases await with
    | none => cases out
    | some await =>
      obtain ⟨_, only, sends⟩ := out
      cases only
      exact answer_carries holds sound fits sends held sent memory
  | @upgrading await _ _ _ _ _ demand sound asked out =>
    subst delivered
    cases await with
    | none => cases out
    | some await =>
      obtain ⟨_, only, sends⟩ := out
      cases only
      exact answer_upgrading_carries demand sound asked fits sends held sent fun wb => written wb rfl
  | @lost _ await _ _ _ _ _ loss requesting out =>
    subst delivered
    rcases out with out | out
    · cases out
    · cases await with
      | none => cases out
      | some await =>
        obtain ⟨_, only, sends⟩ := out
        cases only
        exact ignore sends.isRequest rfl (.lost loss requesting (.inl rfl))
  | wroteBack | wroteBackUpgrading | upgradingWroteBack | wroteBackLost | upgradingLost =>
    cases delivered

end Steps

end Sniper.Directory
