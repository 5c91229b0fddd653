import Sniper.Directory.Replies

/-! The invariant holds along every run. -/

namespace Sniper.Directory

variable {n : Nat} {V : Type}

namespace Sys

variable (sys : Sys n V) (label : Label n V)

/-- The step makes a cache answer a `WB_REQ` with its copy in the given state. -/
def WritesBack (cstate : CState) : Prop :=
  ∃ cache rest, label = .toCache cache ∧ sys.dir.down cache = .wbReq :: rest ∧ (sys.llc cache).cstate = cstate

/-- The step makes the directory keep the buffer of a `FLUSH_REP` for an upgrade that
still waits for other sharers. -/
def KeepsBuffer : Prop :=
  ∃ cache data rest req other, label = .toDirectory cache ∧ sys.up cache = .flushRep data :: rest ∧
    sys.dir.queue.head? = some req ∧ req.msgType = .upgradeReq ∧
    sys.dir.getEntry.sharers other = true ∧ other ≠ cache

/-- The step reads DRAM, or makes the directory read its NUCA cache, while the line there
is not the last one written. -/
def ReadsStale : Prop :=
  (∃ rest, label = .dramServe ∧ sys.dir.toDram = .readReq :: rest ∧ sys.dram ≠ .bytes sys.last) ∨
  (∃ cache msg rest data, label = .toDirectory cache ∧ sys.up cache = msg :: rest ∧
    sys.dir.nuca = some data ∧ data ≠ .bytes sys.last ∧ sys.dir.ReadsNuca cache msg)

end Sys

structure Allowed (promise : Promise) (sys : Sys n V) (label : Label n V) : Prop where
  upgrading : promise.clean → ¬ sys.WritesBack label .sharedUpgrading
  stored : promise.clean → ¬ sys.KeepsBuffer label
  fresh : promise.clean → ¬ sys.ReadsStale label
  modified : promise.durable → ¬ sys.WritesBack label .modified

section Steps

variable {protocol : Protocol} {promise : Promise} {sys before after : Sys n V} {dir : Dir n V}
  {cache : Fin n} {label : Label n V}

theorem Stable.withDir (stable : Stable protocol promise sys dir) (other : Dir n V) :
    Stable protocol promise { sys with dir := other } dir := by
  obtain ⟨core, head, dram⟩ := stable
  exact ⟨⟨⟨core.queue, core.reads, core.fetched, core.log, core.nuca, core.direct⟩, core.entry, core.caches⟩,
    head, dram⟩

theorem roleOf_owned {entry : DirectoryEntry n} {head : Option (ShmemReq n V)}
    {queue : List (ShmemReq n V)} {id : Fin n} (owned : (roleOf entry head queue id).Owned) :
    entry.sharers id = true ∧ granting head id = false ∧
      (entry.dstate = .exclusive ∨ entry.dstate = .modified) := by
  cases role : roleOf entry head queue id with
  | absent =>
    rw [role] at owned
    exact owned.elim
  | sharer dstate await queued =>
    rw [role] at owned
    obtain ⟨present, passes, rfl, _⟩ := roleOf_eq_sharer role
    exact ⟨present, passes, owned⟩

/-- The owner of a line is the only one whose data counts: the value of the line may
change under the others. -/
theorem Stable.of_carries {down : List (DirMsg V)} (stable : Stable protocol promise before dir)
    (touched : before.Touches after cache)
    (carries : Sys.Carries promise.clean (Durable promise before dir.toDram)
      (roleOf dir.getEntry dir.queue.head? dir.queue cache) before.last after cache down) :
    Stable protocol promise after { dir with down := Function.update dir.down cache down } := by
  obtain ⟨core, head, dram⟩ := stable
  rcases carries with ⟨value, here⟩ | ⟨owned, here⟩
  · have durable : Durable promise after dir.toDram = Durable promise before dir.toDram := by
      simp only [Durable, value, touched.dram]
    refine ⟨⟨⟨core.queue, ?_, ?_, core.log, core.nuca, core.direct⟩, core.entry, fun id => ?_⟩, head, ?_⟩
    · rw [touched.fromDram]
      exact core.reads
    · rw [touched.fromDram, value]
      exact core.fetched
    · change Local (Good promise.clean after.last) (Durable promise after dir.toDram)
        (roleOf dir.getEntry dir.queue.head? dir.queue id) _ _ (Function.update dir.down cache down id)
      rw [durable, value]
      by_cases same : id = cache
      · subst same
        rw [Function.update_self]
        exact here
      · rw [Function.update_of_ne same, touched.llc id same, touched.up id same]
        exact core.caches id
    · change _ → Durable promise after dir.toDram
      rw [durable]
      exact dram
  · obtain ⟨present, passes, kind⟩ := roleOf_owned owned
    obtain ⟨owner, _, only⟩ := core.entry.owner kind
    have idle : waits dir.queue.head? = false := by
      cases queue : dir.queue with
      | nil => rfl
      | cons req others =>
        rw [queue, List.head?_cons] at passes
        have fresh := Stable.fresh_of_owned ⟨core, head, dram⟩ queue present passes kind
        simp [waits, fresh.waitForData]
    have reads := core.reads
    rw [idle, Bool.toNat_false] at reads
    have none : before.fromDram = [] := List.eq_nil_of_length_eq_zero (by omega)
    refine ⟨⟨⟨core.queue, ?_, ?_, core.log, core.nuca, core.direct⟩, core.entry, fun id => ?_⟩, head, ?_⟩
    · rw [touched.fromDram]
      exact core.reads
    · rw [touched.fromDram, none]
      rintro _ ⟨⟩
    · change Local (Good promise.clean after.last) (Durable promise after dir.toDram)
        (roleOf dir.getEntry dir.queue.head? dir.queue id) _ _ (Function.update dir.down cache down id)
      by_cases same : id = cache
      · subst same
        rw [Function.update_self]
        exact here _
      · have absent : dir.getEntry.sharers id = false := by
          cases held : dir.getEntry.sharers id with
          | false => rfl
          | true => exact absurd (((only id).mp held).trans ((only cache).mp present).symm) same
        have other := core.caches id
        rw [roleOf_absent absent] at other ⊢
        rw [Function.update_of_ne same, touched.llc id same, touched.up id same]
        exact Local.of_absent other
    · change dir.getEntry.dstate = _ ∨ dir.getEntry.dstate = _ ∨ waits dir.queue.head? = true → _
      rw [idle]
      rintro (unowned | unowned | waiting)
      · rw [unowned] at kind
        rcases kind with kind | kind <;> cases kind
      · rw [unowned] at kind
        rcases kind with kind | kind <;> cases kind
      · cases waiting

theorem Stable.of_cache (stable : Stable protocol promise before before.dir)
    (touched : before.Touches after cache)
    (carries : Sys.Carries promise.clean (Durable promise before before.dir.toDram)
      (roleOf before.dir.getEntry before.dir.queue.head? before.dir.queue cache) before.last after cache
      (before.dir.down cache)) :
    Stable protocol promise after after.dir := by
  have moved := stable.of_carries touched carries
  rw [Function.update_eq_self] at moved
  rw [touched.dir]
  exact moved

theorem Stable.toCache {msg : DirMsg V} {rest : List (DirMsg V)}
    (stable : Stable protocol promise sys sys.dir) (allowed : Allowed promise sys (.toCache cache))
    (sent : sys.dir.down cache = msg :: rest) :
    ∃ after, Sys.handleMsgFromDramDirectory
        { sys with dir := { sys.dir with down := Function.update sys.dir.down cache rest } } cache msg =
          .ok after ∧ Stable protocol promise after after.dir := by
  have here := stable.core.caches cache
  unfold LocalAt at here
  rw [sent] at here
  obtain ⟨after, ran, touched, carries⟩ := deliver_carries
    { sys with dir := { sys.dir with down := Function.update sys.dir.down cache rest } }
    here roleOf_fits
    (fun isWb state durable => absurd ⟨cache, rest, rfl, isWb ▸ sent, state⟩ (allowed.modified durable))
    (fun isWb state clean => absurd ⟨cache, rest, rfl, isWb ▸ sent, state⟩ (allowed.upgrading clean))
  refine ⟨after, ran, ?_⟩
  have moved := (stable.withDir _).of_carries touched carries
  rw [touched.dir]
  exact moved

theorem Stable.toDirectory {msg : CacheMsg V} {rest : List (CacheMsg V)}
    (stable : Stable protocol promise sys sys.dir) (allowed : Allowed promise sys (.toDirectory cache))
    (sent : sys.up cache = msg :: rest) :
    ∃ dir, Sys.handleMsgFromL2Cache protocol sys.dir cache msg = .ok dir ∧
      Stable protocol promise (sys.took cache rest) dir := by
  have fresh (read : sys.dir.ReadsNuca cache msg) (data : LineBuf V) (held : sys.dir.nuca = some data) :
      Good promise.clean sys.last data := by
    intro clean
    by_contra stale
    exact allowed.fresh clean (.inr ⟨cache, msg, rest, data, rfl, sent, held, stale, read⟩)
  cases msg with
  | req msgType =>
    exact stable.handle_req sent fun idle =>
      ⟨fun retrieves => fresh ⟨idle, retrieves⟩, fun unowned => stable.dram (unowned.imp_right .inl)⟩
  | invRep => exact stable.handle_invRep sent fresh
  | flushRep data =>
    refine stable.handle_flushRep sent fun clean req head type id present => ?_
    by_contra other
    exact allowed.stored clean ⟨cache, data, rest, req, id, rfl, sent, head, type, present, other⟩
  | wbRep data =>
    exact stable.handle_wbRep sent fresh

theorem Stable.dramRead {rest : List (DramMsg V)} (stable : Stable protocol promise sys sys.dir)
    (allowed : Allowed promise sys .dramServe) (sent : sys.dir.toDram = .readReq :: rest) :
    Stable protocol promise
      { sys with dir := { sys.dir with toDram := rest }, fromDram := sys.fromDram ++ [sys.dram] }
      { sys.dir with toDram := rest } := by
  obtain ⟨core, head, dram⟩ := stable
  have keeps : Durable promise sys sys.dir.toDram → Durable promise sys rest := by
    intro holds durable
    have holds := holds durable
    rw [sent] at holds
    exact holds.2
  refine ⟨⟨⟨core.queue, ?_, ?_, core.log, core.nuca, core.direct⟩, core.entry, fun id => ?_⟩, head, ?_⟩
  · have reads := core.reads
    rw [sent] at reads
    simp only [List.countP_cons, DramMsg.isRead, if_true] at reads
    simp only [List.length_append, List.length_singleton]
    omega
  · intro data member
    rcases List.mem_append.mp member with member | member
    · exact core.fetched data member
    · rw [List.mem_singleton.mp member]
      intro clean
      by_contra stale
      exact allowed.fresh clean (.inl ⟨rest, rfl, sent, stale⟩)
  · exact Local.mono (core.caches id) (fun _ good => good) keeps
  · exact fun idle => keeps (dram idle)

theorem Stable.dramWrite {data : LineBuf V} {rest : List (DramMsg V)}
    (stable : Stable protocol promise sys sys.dir) (sent : sys.dir.toDram = .writeReq data :: rest) :
    Stable protocol promise { sys with dir := { sys.dir with toDram := rest }, dram := data }
      { sys.dir with toDram := rest } := by
  obtain ⟨core, head, dram⟩ := stable
  have keeps : Durable promise sys sys.dir.toDram → Durable promise { sys with dram := data } rest := by
    intro holds durable
    have holds := holds durable
    rw [sent] at holds
    exact holds
  refine ⟨⟨⟨core.queue, ?_, core.fetched, core.log, core.nuca, core.direct⟩, core.entry, fun id => ?_⟩,
    head, ?_⟩
  · have reads := core.reads
    rw [sent] at reads
    simpa [DramMsg.isRead] using reads
  · exact Local.mono (core.caches id) (fun _ good => good) keeps
  · exact fun idle => keeps (dram idle)

theorem Stable.allocate (stable : Stable protocol promise sys sys.dir) (free : sys.dir.entry.isNone = true) :
    Stable protocol promise { sys with dir := sys.dir.setEntry .new } (sys.dir.setEntry .new) := by
  have same : sys.dir.getEntry = .new := by
    rw [Dir.getEntry, Option.isNone_iff_eq_none.mp free]
    rfl
  obtain ⟨core, head, dram⟩ := stable
  have caches := core.caches
  rw [same] at head dram caches
  exact ⟨⟨⟨core.queue, core.reads, core.fetched, core.log, core.nuca, core.direct⟩, same ▸ core.entry, caches⟩,
    head, dram⟩

theorem Stable.nucaEvict {data : LineBuf V} (stable : Stable protocol promise sys sys.dir) (dirty : Bool)
    (held : sys.dir.nuca = some data) :
    Stable protocol promise
      { sys with
        dir :=
          { sys.dir with
            nuca := none
            toDram := if dirty then sys.dir.toDram ++ [.writeReq data] else sys.dir.toDram } }
      { sys.dir with
        nuca := none
        toDram := if dirty then sys.dir.toDram ++ [.writeReq data] else sys.dir.toDram } := by
  obtain ⟨core, head, dram⟩ := stable
  have indirect : ¬ promise.durable := by
    intro durable
    have empty := core.nuca (core.direct durable)
    rw [held] at empty
    cases empty
  refine ⟨⟨⟨core.queue, ?_, core.fetched, core.log, fun _ => rfl, core.direct⟩, core.entry, fun id => ?_⟩,
    head, fun _ => (absurd · indirect)⟩
  · cases dirty with
    | true => simpa [DramMsg.isRead] using core.reads
    | false => exact core.reads
  · exact Local.mono (core.caches id) (fun _ good => good) fun _ => (absurd · indirect)

theorem Stable.step (stable : Stable protocol promise sys sys.dir) (label : Label n V)
    (allowed : Allowed promise sys label) :
    (∃ after, sys.step protocol label = .ok after ∧ Stable protocol promise after after.dir) ∨
      sys.step protocol label = .error .disabled := by
  cases label with
  | access cache op =>
    obtain ⟨after, ran, touched, carries⟩ := access_carries op (stable.core.caches cache)
    exact .inl ⟨after, by simp [Sys.step, ran, liftFault], stable.of_cache touched carries⟩
  | evict cache =>
    cases ran : sys.evict cache with
    | ok after =>
      obtain ⟨touched, carries⟩ := evict_carries (stable.core.caches cache) ran
      exact .inl ⟨after, ran, stable.of_cache touched carries⟩
    | error stop =>
      refine .inr ?_
      unfold Sys.step
      unfold Sys.evict at ran ⊢
      cases state : (sys.llc cache).cstate <;> simp [state] at ran ⊢
  | toDirectory cache =>
    cases sent : sys.up cache with
    | nil => exact .inr (by simp [Sys.step, sent])
    | cons msg rest =>
      obtain ⟨dir, ran, moved⟩ := stable.toDirectory allowed sent
      exact .inl ⟨_, by simp only [Sys.step, sent, Sys.withDir, ran]; rfl, moved.withDir dir⟩
  | toCache cache =>
    cases sent : sys.dir.down cache with
    | nil => exact .inr (by simp [Sys.step, sent])
    | cons msg rest =>
      obtain ⟨after, ran, moved⟩ := stable.toCache allowed sent
      exact .inl ⟨after, by simp only [Sys.step, sent, ran, liftFault], moved⟩
  | dramServe =>
    cases sent : sys.dir.toDram with
    | nil => exact .inr (by simp [Sys.step, sent])
    | cons msg rest =>
      cases msg with
      | readReq => exact .inl ⟨_, by simp only [Sys.step, sent], stable.dramRead allowed sent⟩
      | writeReq data => exact .inl ⟨_, by simp only [Sys.step, sent], stable.dramWrite sent⟩
  | fromDram =>
    cases sent : sys.fromDram with
    | nil => exact .inr (by simp [Sys.step, sent])
    | cons data rest =>
      obtain ⟨dir, ran, moved⟩ := stable.handle_dramReply sent
      exact .inl ⟨_, by simp only [Sys.step, sent, Sys.withDir, ran]; rfl, moved.withDir dir⟩
  | allocate =>
    cases free : sys.dir.entry.isNone with
    | false => exact .inr (by simp [Sys.step, free])
    | true => exact .inl ⟨_, by simp only [Sys.step, free, if_true], stable.allocate free⟩
  | nullify requester =>
    by_cases idle : sys.dir.queue = [] ∧ sys.dir.entry.isSome = true
    · obtain ⟨dir, ran, moved⟩ := stable.handle_nullify requester idle.1 idle.2
      exact .inl ⟨_, by simp only [Sys.step, if_pos idle, Sys.withDir, ran], moved.withDir dir⟩
    · exact .inr (by simp only [Sys.step, if_neg idle])
  | nucaEvict dirty =>
    cases held : sys.dir.nuca with
    | none => exact .inr (by simp [Sys.step, held])
    | some data => exact .inl ⟨_, by simp only [Sys.step, held], stable.nucaEvict dirty held⟩

theorem Stable.initial {hasNuca : Bool} {value : V} (direct : promise.durable → hasNuca = false) :
    Stable protocol promise (Sys.initial (n := n) hasNuca value) (Sys.initial (n := n) hasNuca value).dir := by
  refine ⟨⟨⟨⟨.nil, by rintro _ ⟨⟩, by rintro _ ⟨⟩⟩, rfl, by rintro _ ⟨⟩, rfl, fun _ => rfl, direct⟩, .fresh, fun id => ?_⟩, by rintro _ ⟨⟩,
    fun _ _ => rfl⟩
  exact .absent .idle (by rintro _ ⟨⟩)

theorem Stable.reach {hasNuca : Bool} (guard : Sys n V → Label n V → Prop)
    (keeps : ∀ sys label, guard sys label → Stable protocol promise sys sys.dir → Allowed promise sys label)
    (direct : promise.durable → hasNuca = false)
    (reached : (machine n V protocol hasNuca).Reach guard sys) : Stable protocol promise sys sys.dir := by
  refine reached.invariant (fun sys => Stable protocol promise sys sys.dir) ?_ ?_
  · rintro _ ⟨value, rfl⟩
    exact .initial direct
  · intro state label next stable allowed stepped
    rcases stable.step label (keeps state label allowed stable) with ⟨after, ran, moved⟩ | disabled
    · have same : after = next := Except.ok.inj (ran.symm.trans stepped)
      rwa [same] at moved
    · have wrong := disabled.symm.trans stepped
      cases wrong

end Steps

end Sniper.Directory
