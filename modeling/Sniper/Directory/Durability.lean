import Sniper.Directory.Coherence

/-! Where the values of a line go.

The protocol loses values in three places: a `WB_REP` for a modified copy leaves DRAM
with an older value, a `WB_REQ` that meets an upgrade is answered with a buffer nobody
wrote, and the data of a `FLUSH_REP` for an upgrade that still waits for other sharers is
freed before it is used.  In every run without these steps no value is lost. -/

namespace Sniper.Directory

variable {n : Nat} {V : Type}

/-- No request is queued and no message is under way. -/
structure Sys.Quiet (sys : Sys n V) : Prop where
  queue : sys.dir.queue = []
  down : ∀ cache, sys.dir.down cache = []
  up : ∀ cache, sys.up cache = []
  toDram : sys.dir.toDram = []
  fromDram : sys.fromDram = []

/-- The copies and replies that make up the value of a line. -/
structure Sys.Current (sys : Sys n V) : Prop where
  copies : ∀ cache, (sys.llc cache).cstate ≠ .invalid → (sys.llc cache).data = .bytes sys.last
  answers : ∀ cache data, .wbRep data ∈ sys.up cache ∨ .flushRep data ∈ sys.up cache → data = .bytes sys.last
  replies : ∀ cache data, .shRep data ∈ sys.dir.down cache ∨ .exRep data ∈ sys.dir.down cache →
    data = .bytes sys.last

section Copies

variable {good : LineBuf V → Prop} {durable : Prop} {role : Role} {llc : Llc V}
  {up : List (CacheMsg V)} {down : List (DirMsg V)}

theorem Local.copy_good (here : Local good durable role llc up down) (held : llc.cstate ≠ .invalid) :
    good llc.data := by
  cases here with
  | absent | queued | filled | lost | wroteBackLost | upgradingLost => exact absurd rfl held
  | upgraded _ sound | holding _ sound | upgrading _ sound | wroteBack sound
  | wroteBackUpgrading _ sound | upgradingWroteBack _ sound => exact sound

theorem Requesting.no_data {waiters : List (MemOp V)} (requesting : Requesting waiters up) {data : LineBuf V} :
    .wbRep data ∉ up ∧ .flushRep data ∉ up := by
  cases requesting <;> simp

theorem Upgrading.no_data {queued : Option ReqType} (asked : Upgrading queued up) {data : LineBuf V} :
    .wbRep data ∉ up ∧ .flushRep data ∉ up := by
  cases asked <;> simp

theorem Loss.data_good {dstate : DState} {await : Option Await} {msg : CacheMsg V} {data : LineBuf V}
    (loss : Loss good durable dstate await msg) (isData : .wbRep data = msg ∨ .flushRep data = msg) :
    good data := by
  cases loss with
  | invRep => rcases isData with isData | isData <;> cases isData
  | flushRep sound =>
    rcases isData with isData | isData <;> cases isData
    exact sound

theorem Local.answer_good {data : LineBuf V} (here : Local good durable role llc up down)
    (sent : .wbRep data ∈ up ∨ .flushRep data ∈ up) : good data := by
  cases here with
  | absent requesting => exact absurd sent (not_or.mpr requesting.no_data)
  | queued | filled | upgraded | holding => simp at sent
  | upgrading _ _ asked => exact absurd sent (not_or.mpr asked.no_data)
  | wroteBack _ reply =>
    simp only [List.mem_singleton, CacheMsg.wbRep.injEq, reduceCtorEq, or_false] at sent
    exact sent ▸ reply
  | wroteBackUpgrading _ _ reply =>
    simp only [List.mem_cons, CacheMsg.wbRep.injEq, reduceCtorEq, List.not_mem_nil, or_false] at sent
    exact sent ▸ reply
  | upgradingWroteBack _ _ reply asked =>
    simp only [List.mem_append, asked.no_data.1, asked.no_data.2, List.mem_singleton,
      CacheMsg.wbRep.injEq, reduceCtorEq, or_false, false_or] at sent
    exact sent ▸ reply
  | lost loss requesting =>
    simp only [List.mem_cons, requesting.no_data.1, requesting.no_data.2, or_false] at sent
    exact loss.data_good sent
  | wroteBackLost reply _ requesting =>
    simp only [List.mem_cons, requesting.no_data.1, requesting.no_data.2, CacheMsg.wbRep.injEq,
      reduceCtorEq, or_false] at sent
    exact sent ▸ reply
  | upgradingLost _ loss asked =>
    simp only [List.mem_append, asked.no_data.1, asked.no_data.2, List.mem_singleton, false_or] at sent
    exact loss.data_good sent

theorem Stale.no_reply (stale : Stale down) {data : LineBuf V} :
    .shRep data ∉ down ∧ .exRep data ∉ down :=
  ⟨fun member => by simpa [DirMsg.isRequest] using stale _ member,
    fun member => by simpa [DirMsg.isRequest] using stale _ member⟩

theorem Local.reply_good {data : LineBuf V} (here : Local good durable role llc up down)
    (sent : .shRep data ∈ down ∨ .exRep data ∈ down) : good data := by
  cases here with
  | absent _ stale => exact absurd sent (not_or.mpr stale.no_reply)
  | queued _ stale => exact absurd sent (not_or.mpr stale.no_reply)
  | filled fill stale out =>
    simp only [List.mem_append, List.mem_cons, stale.no_reply.1, stale.no_reply.2,
      out.stale.no_reply.1, out.stale.no_reply.2, or_false, false_or] at sent
    cases fill with
    | shared sound | exclusive sound | modified sound =>
      rcases sent with sent | sent <;> cases sent
      exact sound
  | upgraded _ _ out =>
    simp [out.stale.no_reply.1, out.stale.no_reply.2] at sent
  | holding _ _ out => exact absurd sent (not_or.mpr out.stale.no_reply)
  | upgrading _ _ _ out => exact absurd sent (not_or.mpr out.stale.no_reply)
  | lost _ _ out => exact absurd sent (not_or.mpr (Stale.of_lost out).no_reply)
  | wroteBack | wroteBackUpgrading | upgradingWroteBack | wroteBackLost | upgradingLost => simp at sent

end Copies

theorem Stable.current {protocol : Protocol} {promise : Promise} {sys : Sys n V}
    (stable : Stable protocol promise sys sys.dir) (clean : promise.clean) : sys.Current where
  copies cache held := (stable.core.caches cache).copy_good held clean
  answers cache _ sent := (stable.core.caches cache).answer_good sent clean
  replies cache _ sent := (stable.core.caches cache).reply_good sent clean

/-! ### Values and DRAM -/

/-- The steps of a run that loses no value. -/
def Sys.Keeps (sys : Sys n V) (label : Label n V) : Prop :=
  ¬ sys.WritesBack label .modified ∧ ¬ sys.WritesBack label .sharedUpgrading ∧ ¬ sys.KeepsBuffer label

def Promise.all : Promise := ⟨True, True, id⟩

section Durable

variable {protocol : Protocol} {sys : Sys n V}

theorem Stable.reads_current (stable : Stable protocol .all sys sys.dir) (label : Label n V) :
    ¬ sys.ReadsStale label := by
  rintro (⟨rest, _, sent, stale⟩ | ⟨_, _, _, data, _, _, held, _⟩)
  · have reads := stable.core.reads
    have waiting : waits sys.dir.queue.head? = true := by
      cases waiting : waits sys.dir.queue.head? with
      | true => rfl
      | false =>
        rw [waiting, sent] at reads
        simp [DramMsg.isRead] at reads
    have holds := stable.dram (.inr (.inr waiting)) trivial
    rw [sent] at holds
    exact stale holds.1
  · have empty := stable.core.nuca (stable.core.direct trivial)
    rw [held] at empty
    cases empty

theorem Stable.reach_keeps (reached : (machine n V protocol false).Reach Sys.Keeps sys) :
    Stable protocol .all sys sys.dir :=
  .reach Sys.Keeps (fun _ label keeps stable =>
    ⟨fun _ => keeps.2.1, fun _ => keeps.2.2, fun _ => stable.reads_current label, fun _ => keeps.1⟩)
    (fun _ => rfl) reached

theorem Local.durable_of_quiet {good : LineBuf V → Prop} {durable : Prop} {dstate : DState}
    {queued : Option ReqType} {llc : Llc V} (here : Local good durable (.sharer dstate none queued) llc [] [])
    (owned : dstate = .exclusive ∨ dstate = .modified) (unmodified : llc.cstate ≠ .modified) : durable := by
  generalize empty : ([] : List (DirMsg V)) = down at here
  generalize silent : ([] : List (CacheMsg V)) = up at here
  cases here with
  | filled => simp at empty
  | upgraded => cases empty
  | holding holds =>
    cases holds with
    | shared => rcases owned with owned | owned <;> cases owned
    | exclusive kept => exact kept
    | dirty => exact absurd rfl unmodified
  | upgrading => rcases owned with owned | owned <;> cases owned
  | lost => cases silent

theorem Stable.dram_of_quiet (stable : Stable protocol .all sys sys.dir) (quiet : sys.Quiet)
    (unmodified : ∀ cache, (sys.llc cache).cstate ≠ .modified) : sys.dram = .bytes sys.last := by
  have durable : Durable .all sys sys.dir.toDram := by
    by_cases owned : sys.dir.getEntry.dstate = .exclusive ∨ sys.dir.getEntry.dstate = .modified
    · obtain ⟨owner, _, only⟩ := stable.core.entry.owner owned
      have here := stable.core.caches owner
      have present := (only owner).mpr rfl
      rw [quiet.queue, List.head?_nil, roleOf_settled present] at here
      unfold LocalAt at here
      rw [quiet.up, quiet.down] at here
      exact here.durable_of_quiet owned (unmodified owner)
    · refine stable.dram ?_
      have notOwned := stable.core.entry.notOwned
      cases dstate : sys.dir.getEntry.dstate with
      | uncached => exact .inl rfl
      | shared => exact .inr (.inl rfl)
      | exclusive => exact absurd (.inl dstate) owned
      | modified => exact absurd (.inr dstate) owned
      | owned => exact absurd dstate notOwned
  have holds := durable trivial
  rw [quiet.toDram] at holds
  exact holds

end Durable

/-- Without the steps that lose a value, DRAM is up to date whenever the line is at rest
and not modified, and every reply of the directory brings the last value written. -/
theorem dram_keeps_last_write (n : Nat) (V : Type) (protocol : Protocol) (sys : Sys n V)
    (reached : (machine n V protocol false).Reach Sys.Keeps sys) :
    (sys.Quiet → (∀ cache, (sys.llc cache).cstate ≠ .modified) → sys.dram = .bytes sys.last) ∧
      ∀ cache data, .shRep data ∈ sys.dir.down cache ∨ .exRep data ∈ sys.dir.down cache →
        data = .bytes sys.last := by
  have stable := Stable.reach_keeps reached
  exact ⟨stable.dram_of_quiet, (stable.current trivial).replies⟩

theorem Sys.Keeps.of_front {sys : Sys n V} {label : Label n V}
    (front : ∀ cache, label = .toCache cache → ∀ rest, sys.dir.down cache ≠ .wbReq :: rest)
    (head : ∀ cache, label = .toDirectory cache → ∀ req, sys.dir.queue.head? = some req →
      req.msgType ≠ .upgradeReq) : sys.Keeps label := by
  refine ⟨?_, ?_, ?_⟩
  · rintro ⟨cache, rest, toCache, sent, _⟩
    exact front cache toCache rest sent
  · rintro ⟨cache, rest, toCache, sent, _⟩
    exact front cache toCache rest sent
  · rintro ⟨cache, _, _, req, _, toDirectory, _, isHead, type, _⟩
    exact head cache toDirectory req isHead type

/-- A cache writes the line and evicts it: the flush brings the value to DRAM. -/
theorem dram_keeps_last_write_after_eviction : ∃ sys : Sys 2 Nat,
    (machine 2 Nat .mesi false).Reach Sys.Keeps sys ∧ sys.Quiet ∧ sys.last = 1 ∧ sys.dram = .bytes 1 := by
  have start : (machine 2 Nat .mesi false).Reach Sys.Keeps (.initial false 0) := .initial ⟨0, rfl⟩
  have asked := start.step (.access 0 (.write fun _ => 1)) (.of_front (by rintro _ ⟨⟩) (by rintro _ ⟨⟩)) rfl
  have served := asked.step (.toDirectory 0) (.of_front (by rintro _ ⟨⟩) (by rintro _ _ _ ⟨⟩)) rfl
  have read := served.step .dramServe (.of_front (by rintro _ ⟨⟩) (by rintro _ ⟨⟩)) rfl
  have replied := read.step .fromDram (.of_front (by rintro _ ⟨⟩) (by rintro _ ⟨⟩)) rfl
  have filled := replied.step (.toCache 0) (.of_front (by rintro _ ⟨⟩ _ ⟨⟩) (by rintro _ ⟨⟩)) rfl
  have evicted := filled.step (.evict 0) (.of_front (by rintro _ ⟨⟩) (by rintro _ ⟨⟩)) rfl
  have flushed := evicted.step (.toDirectory 0) (.of_front (by rintro _ ⟨⟩) (by rintro _ _ _ ⟨⟩)) rfl
  have written := flushed.step .dramServe (.of_front (by rintro _ ⟨⟩) (by rintro _ ⟨⟩)) rfl
  have atRest : ∃ sys, (machine 2 Nat .mesi false).Reach Sys.Keeps sys ∧ sys.Quiet ∧
      (∀ cache, (sys.llc cache).cstate ≠ .modified) ∧ sys.last = 1 :=
    ⟨_, written, ⟨rfl, Fin.forall_fin_two.mpr ⟨rfl, rfl⟩, Fin.forall_fin_two.mpr ⟨rfl, rfl⟩, rfl, rfl⟩,
      Fin.forall_fin_two.mpr ⟨by rintro ⟨⟩, by rintro ⟨⟩⟩, rfl⟩
  obtain ⟨sys, reached, quiet, unmodified, last⟩ := atRest
  have kept := (dram_keeps_last_write 2 Nat .mesi sys reached).1 quiet unmodified
  exact ⟨sys, reached, quiet, last, last ▸ kept⟩

/-- The owner answers a `WB_REQ` with its modified copy, and nothing writes that copy to
DRAM: once both sharers have evicted the line, the next reader gets the old value. -/
theorem written_value_lost_by_write_back : ∃ sys later : Sys 2 Nat,
    (machine 2 Nat .mesi false).Reachable sys ∧ sys.Quiet ∧ (∀ cache, (sys.llc cache).cstate ≠ .modified) ∧
      sys.last = 1 ∧ sys.dram = .bytes 0 ∧
      (machine 2 Nat .mesi false).run sys
        [.evict 0, .evict 1, .toDirectory 0, .toDirectory 1, .access 1 .read, .toDirectory 1, .dramServe,
          .fromDram] = .ok later ∧
      later.last = 1 ∧ later.dir.down 1 = [.exRep (.bytes 0)] := by
  have reached : ∃ sys, (machine 2 Nat .mesi false).run (.initial false 0)
      [.access 0 (.write fun _ => 1), .toDirectory 0, .dramServe, .fromDram, .toCache 0, .access 1 .read,
        .toDirectory 1, .toCache 0, .toDirectory 0, .toCache 1] = .ok sys ∧ sys.Quiet ∧
      (∀ cache, (sys.llc cache).cstate ≠ .modified) ∧ sys.last = 1 ∧ sys.dram = .bytes 0 ∧
      ∃ later, (machine 2 Nat .mesi false).run sys
        [.evict 0, .evict 1, .toDirectory 0, .toDirectory 1, .access 1 .read, .toDirectory 1, .dramServe,
          .fromDram] = .ok later ∧ later.last = 1 ∧ later.dir.down 1 = [.exRep (.bytes 0)] :=
    ⟨_, rfl, ⟨rfl, Fin.forall_fin_two.mpr ⟨rfl, rfl⟩, Fin.forall_fin_two.mpr ⟨rfl, rfl⟩, rfl, rfl⟩,
      Fin.forall_fin_two.mpr ⟨by rintro ⟨⟩, by rintro ⟨⟩⟩, rfl, rfl, _, rfl, rfl, rfl⟩
  obtain ⟨sys, ran, quiet, unmodified, last, dram, later, continued, same, answered⟩ := reached
  exact ⟨sys, later, .run (.initial ⟨0, rfl⟩) ran, quiet, unmodified, last, dram, continued, same, answered⟩

/-! ### What the caches answer -/

/-- The steps of a run in which the caches and the memory side supply what they hold. -/
def Sys.Faithful (sys : Sys n V) (label : Label n V) : Prop :=
  ¬ sys.WritesBack label .sharedUpgrading ∧ ¬ sys.KeepsBuffer label ∧ ¬ sys.ReadsStale label

/-- The copies are promised, DRAM is not. -/
def Promise.copies : Promise := ⟨True, False, False.elim⟩

theorem Stable.reach_faithful {protocol : Protocol} {hasNuca : Bool} {sys : Sys n V}
    (reached : (machine n V protocol hasNuca).Reach Sys.Faithful sys) : Stable protocol .copies sys sys.dir :=
  .reach Sys.Faithful (fun _ _ faithful _ =>
    ⟨fun _ => faithful.1, fun _ => faithful.2.1, fun _ => faithful.2.2, False.elim⟩) False.elim reached

theorem Sys.answer_is_copy (sys : Sys n V) {cache : Fin n} {msg : DirMsg V}
    (held : (sys.llc cache).cstate ≠ .invalid)
    (written : msg = .wbReq → (sys.llc cache).cstate ≠ .sharedUpgrading) :
    (msg = .wbReq → ∃ after, sys.handleMsgFromDramDirectory cache msg = .ok after ∧
      after.up cache = sys.up cache ++ [.wbRep (sys.llc cache).data]) ∧
    (msg = .flushReq → ∃ after, sys.handleMsgFromDramDirectory cache msg = .ok after ∧
      after.up cache = sys.up cache ++ [.flushRep (sys.llc cache).data]) := by
  constructor
  · rintro rfl
    refine ⟨_, rfl, ?_⟩
    simp [processWbReqFromDramDirectory, held, written rfl]
  · rintro rfl
    refine ⟨_, rfl, ?_⟩
    simp [processFlushReqFromDramDirectory, held]

/-- In a faithful run every copy, every answer to the directory and every reply of the
directory is the value of the line, and a cache that is asked for its copy sends it. -/
theorem answers_carry_the_copy (n : Nat) (V : Type) (protocol : Protocol) (hasNuca : Bool) (sys : Sys n V)
    (reached : (machine n V protocol hasNuca).Reach Sys.Faithful sys) :
    sys.Current ∧
    ∀ cache msg rest, sys.dir.down cache = msg :: rest → (sys.llc cache).cstate ≠ .invalid →
      sys.Faithful (.toCache cache) →
      (msg = .wbReq → ∃ after, (machine n V protocol hasNuca).step sys (.toCache cache) = .ok after ∧
        after.up cache = sys.up cache ++ [.wbRep (sys.llc cache).data]) ∧
      (msg = .flushReq → ∃ after, (machine n V protocol hasNuca).step sys (.toCache cache) = .ok after ∧
        after.up cache = sys.up cache ++ [.flushRep (sys.llc cache).data]) := by
  refine ⟨(Stable.reach_faithful reached).current trivial, fun cache msg rest sent held faithful => ?_⟩
  have written : msg = .wbReq → (sys.llc cache).cstate ≠ .sharedUpgrading := by
    rintro rfl upgrading
    exact faithful.1 ⟨cache, rest, rfl, sent, upgrading⟩
  obtain ⟨wb, flush⟩ := Sys.answer_is_copy
    { sys with dir := { sys.dir with down := Function.update sys.dir.down cache rest } } held written
  refine ⟨fun isWb => ?_, fun isFlush => ?_⟩
  · obtain ⟨after, ran, carried⟩ := wb isWb
    exact ⟨after, by simp only [machine, Sys.step, sent, ran, liftFault], carried⟩
  · obtain ⟨after, ran, carried⟩ := flush isFlush
    exact ⟨after, by simp only [machine, Sys.step, sent, ran, liftFault], carried⟩

theorem Sys.Faithful.of_front {sys : Sys n V} {label : Label n V}
    (front : ∀ cache, label = .toCache cache → ∀ rest, sys.dir.down cache ≠ .wbReq :: rest)
    (head : ∀ cache, label = .toDirectory cache → ∀ req, sys.dir.queue.head? = some req →
      req.msgType ≠ .upgradeReq)
    (nuca : sys.dir.nuca = none) (dram : label = .dramServe → sys.dram = .bytes sys.last) :
    sys.Faithful label := by
  refine ⟨(Keeps.of_front front head).2.1, (Keeps.of_front front head).2.2, ?_⟩
  rintro (⟨_, serve, _, stale⟩ | ⟨_, _, _, data, _, _, held, _⟩)
  · exact stale (dram serve)
  · rw [nuca] at held
    cases held

/-- A modified copy answers a `FLUSH_REQ`. -/
theorem answers_carry_the_copy_of_owner : ∃ sys : Sys 2 Nat,
    (machine 2 Nat .mesif false).Reach Sys.Faithful sys ∧ sys.Current ∧
      ∃ after, (machine 2 Nat .mesif false).step sys (.toCache 0) = .ok after ∧
        after.up 0 = [.flushRep (.bytes 1)] := by
  have start : (machine 2 Nat .mesif false).Reach Sys.Faithful (.initial false 0) := .initial ⟨0, rfl⟩
  have asked := start.step (.access 0 (.write fun _ => 1)) (.of_front (by rintro _ ⟨⟩) (by rintro _ ⟨⟩) rfl (by rintro ⟨⟩)) rfl
  have served := asked.step (.toDirectory 0) (.of_front (by rintro _ ⟨⟩) (by rintro _ _ _ ⟨⟩) rfl (by rintro ⟨⟩)) rfl
  have read := served.step .dramServe (.of_front (by rintro _ ⟨⟩) (by rintro _ ⟨⟩) rfl fun _ => rfl) rfl
  have replied := read.step .fromDram (.of_front (by rintro _ ⟨⟩) (by rintro _ ⟨⟩) rfl (by rintro ⟨⟩)) rfl
  have filled := replied.step (.toCache 0) (.of_front (by rintro _ ⟨⟩ _ ⟨⟩) (by rintro _ ⟨⟩) rfl (by rintro ⟨⟩)) rfl
  have wanted := filled.step (.access 1 (.write fun _ => 2)) (.of_front (by rintro _ ⟨⟩) (by rintro _ ⟨⟩) rfl (by rintro ⟨⟩)) rfl
  have flushing := wanted.step (.toDirectory 1) (.of_front (by rintro _ ⟨⟩) (by rintro _ _ _ ⟨⟩) rfl (by rintro ⟨⟩)) rfl
  have waiting : ∃ sys, (machine 2 Nat .mesif false).Reach Sys.Faithful sys ∧
      sys.dir.down 0 = [.flushReq] ∧ (sys.llc 0).cstate ≠ .invalid ∧ (sys.llc 0).data = .bytes 1 ∧
      sys.up 0 = [] ∧ sys.dir.nuca = none := ⟨_, flushing, rfl, by rintro ⟨⟩, rfl, rfl, rfl⟩
  obtain ⟨sys, reached, sent, held, data, silent, nuca⟩ := waiting
  obtain ⟨current, answers⟩ := answers_carry_the_copy 2 Nat .mesif false sys reached
  have faithful : sys.Faithful (.toCache 0) := by
    refine .of_front (fun _ isZero rest => ?_) (by rintro _ ⟨⟩) nuca (by rintro ⟨⟩)
    cases isZero
    rw [sent]
    rintro ⟨⟩
  obtain ⟨after, stepped, carried⟩ := (answers 0 .flushReq [] sent held faithful).2 rfl
  rw [data, silent] at carried
  exact ⟨sys, reached, current, after, stepped, carried⟩

/-- A forward request of MESIF meets the upgrade of the forwarder: the reader gets a buffer
that nobody wrote. -/
theorem forward_meets_upgrade : ∃ sys : Sys 3 Nat,
    (machine 3 Nat .mesif false).Reachable sys ∧ (sys.llc 1).cstate = .sharedUpgrading ∧
      (sys.llc 1).data = .bytes 0 ∧ sys.dir.down 1 = [.wbReq] ∧
      ∃ after, (machine 3 Nat .mesif false).run sys [.toCache 1] = .ok after ∧
        after.up 1 = [.req .upgradeReq, .wbRep .indeterminate] ∧
      ∃ later, (machine 3 Nat .mesif false).run after [.toDirectory 1, .toDirectory 1] = .ok later ∧
        later.dir.down 2 = [.shRep .indeterminate, .invReq] := by
  have reached : ∃ sys, (machine 3 Nat .mesif false).run (.initial false 0)
      [.access 0 .read, .toDirectory 0, .dramServe, .fromDram, .toCache 0, .access 1 .read, .toDirectory 1,
        .toCache 0, .toDirectory 0, .toCache 1, .access 2 .read, .toDirectory 2,
        .access 1 (.write fun _ => 1)] = .ok sys ∧ (sys.llc 1).cstate = .sharedUpgrading ∧
      (sys.llc 1).data = .bytes 0 ∧ sys.dir.down 1 = [.wbReq] ∧
      ∃ after, (machine 3 Nat .mesif false).run sys [.toCache 1] = .ok after ∧
        after.up 1 = [.req .upgradeReq, .wbRep .indeterminate] ∧
      ∃ later, (machine 3 Nat .mesif false).run after [.toDirectory 1, .toDirectory 1] = .ok later ∧
        later.dir.down 2 = [.shRep .indeterminate, .invReq] :=
    ⟨_, rfl, rfl, rfl, rfl, _, rfl, rfl, _, rfl, rfl⟩
  obtain ⟨sys, ran, rest⟩ := reached
  exact ⟨sys, .run (.initial ⟨0, rfl⟩) ran, rest⟩

end Sniper.Directory
