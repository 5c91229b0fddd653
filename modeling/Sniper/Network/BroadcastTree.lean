import Sniper.Library.Machine
import Mathlib.Algebra.Order.BigOperators.Group.Finset
import Mathlib.Data.Fintype.BigOperators

/-! The broadcast tree of `NetworkModelEMeshHopByHop`, with one core for each node.

`computeCoreId` wraps around at the edges of the mesh, so a packet that should
leave the tree at an edge comes back on the other side. -/

namespace Sniper.Network

structure Mesh where
  width : Nat
  height : Nat
  width_pos : 0 < width
  height_pos : 0 < height

def Mesh.cores (mesh : Mesh) : Nat := mesh.width * mesh.height

inductive Receiver where
  | broadcast
  | core (id : Nat)
deriving DecidableEq, Repr

structure Hop where
  finalDest : Receiver
  nextDest : Nat
deriving DecidableEq, Repr

def computePosition (mesh : Mesh) (core : Nat) : Int × Int :=
  ((core % mesh.width : Nat), (core / mesh.width : Nat))

def computeCoreId (mesh : Mesh) (x y : Int) : Nat :=
  let x := (x + mesh.width) % mesh.width
  let y := (y + mesh.height) % mesh.height
  (y * mesh.width + x).toNat

/-- `addHop`, if its condition holds. -/
def addHopIf (condition : Prop) [Decidable condition] (finalDest : Receiver) (nextDest : Nat) : List Hop :=
  if condition then [⟨finalDest, nextDest⟩] else []

/-- `routePacket` for a broadcast of the sender, at one core. -/
def routePacket (mesh : Mesh) (sender core : Nat) : List Hop :=
  let (sx, sy) := computePosition mesh sender
  let (cx, cy) := computePosition mesh core
  addHopIf (cy ≥ sy) .broadcast (computeCoreId mesh cx (cy + 1)) ++
    addHopIf (cy ≤ sy) .broadcast (computeCoreId mesh cx (cy - 1)) ++
    addHopIf (cy = sy ∧ cx ≥ sx) .broadcast (computeCoreId mesh (cx + 1) cy) ++
    addHopIf (cy = sy ∧ cx ≤ sx) .broadcast (computeCoreId mesh (cx - 1) cy) ++
    addHopIf (cy = sy ∧ cx = sx) (.core core) core

structure State where
  inFlight : List Hop
  /-- How often each core has received the packet. -/
  delivered : Nat → Nat

inductive Fault where
  /-- There is no such packet. -/
  | noPacket
  /-- A packet for another core, which the broadcast tree does not send. -/
  | unicast
deriving DecidableEq, Repr

/-- `netPullFromTransport`: a broadcast is forwarded and received. -/
def netPull (mesh : Mesh) (sender : Nat) (hop : Hop) (rest : List Hop) (delivered : Nat → Nat) : Except Fault State :=
  let received := Function.update delivered hop.nextDest (delivered hop.nextDest + 1)
  match hop.finalDest with
  | .broadcast => .ok ⟨rest ++ routePacket mesh sender hop.nextDest, received⟩
  | .core id => if id = hop.nextDest then .ok ⟨rest, received⟩ else .error .unicast

/-- The packets in flight, received in any order. -/
def machine (mesh : Mesh) (sender : Nat) : Machine State Nat Fault where
  initial state := state = ⟨routePacket mesh sender sender, fun _ => 0⟩
  step state index :=
    match state.inFlight[index]? with
    | none => .error .noPacket
    | some hop => netPull mesh sender hop (state.inFlight.eraseIdx index) state.delivered

def netSend (mesh : Mesh) (sender : Nat) : State := ⟨routePacket mesh sender sender, fun _ => 0⟩

/-- The forwarding ends whatever the order, and then every core has received the packet once. -/
def Broadcasts (mesh : Mesh) (sender : Nat) : Prop :=
  (∃ bound, ∀ order state, (machine mesh sender).run (netSend mesh sender) order = .ok state → order.length ≤ bound) ∧
  ∀ order state, (machine mesh sender).run (netSend mesh sender) order = .ok state → state.inFlight = [] →
    ∀ core < mesh.cores, state.delivered core = 1

theorem mem_addHopIf {condition : Prop} [Decidable condition] {finalDest : Receiver} {nextDest : Nat} {hop : Hop}
    (member : hop ∈ addHopIf condition finalDest nextDest) : hop = ⟨finalDest, nextDest⟩ := by
  unfold addHopIf at member
  split at member
  case isTrue => exact List.mem_singleton.mp member
  case isFalse => cases member

theorem computeCoreId_lt (mesh : Mesh) (x y : Int) : computeCoreId mesh x y < mesh.cores := by
  have width : (0 : Int) < mesh.width := by exact_mod_cast mesh.width_pos
  have height : (0 : Int) < mesh.height := by exact_mod_cast mesh.height_pos
  have column := Int.emod_lt_of_pos (x + mesh.width) width
  have row := Int.emod_lt_of_pos (y + mesh.height) height
  have columnPos := Int.emod_nonneg (x + mesh.width) (Int.ne_of_gt width)
  have rowPos := Int.emod_nonneg (y + mesh.height) (Int.ne_of_gt height)
  have last : ((y + mesh.height) % mesh.height) * mesh.width ≤ (mesh.height - 1) * mesh.width :=
    Int.mul_le_mul_of_nonneg_right (by omega) (Int.le_of_lt width)
  have total : ((mesh.height : Int) - 1) * mesh.width + mesh.width = mesh.cores := by
    simp only [Mesh.cores]
    push_cast
    rw [Int.sub_mul, Int.one_mul, Int.mul_comm (mesh.width : Int)]
    omega
  have start := Int.mul_nonneg rowPos (Int.le_of_lt width)
  have below : (y + mesh.height) % mesh.height * mesh.width + (x + mesh.width) % mesh.width < mesh.cores := by
    omega
  exact (Int.toNat_lt (Int.add_nonneg start columnPos)).mpr below

theorem routePacket_broadcasts (mesh : Mesh) (sender core : Nat) :
    ∃ next, ⟨.broadcast, next⟩ ∈ routePacket mesh sender core := by
  by_cases above : (computePosition mesh core).2 ≥ (computePosition mesh sender).2
  · refine ⟨computeCoreId mesh (computePosition mesh core).1 ((computePosition mesh core).2 + 1), ?_⟩
    simp [routePacket, addHopIf, above]
  · have below : (computePosition mesh core).2 ≤ (computePosition mesh sender).2 := by omega
    refine ⟨computeCoreId mesh (computePosition mesh core).1 ((computePosition mesh core).2 - 1), ?_⟩
    simp [routePacket, addHopIf, below]

/-- The packet is still in flight as a broadcast, and all packets go to nodes of the mesh. -/
structure Flying (mesh : Mesh) (state : State) : Prop where
  broadcast : ∃ next, ⟨.broadcast, next⟩ ∈ state.inFlight
  inMesh : ∀ hop ∈ state.inFlight, hop.nextDest < mesh.cores
  toSelf : ∀ hop ∈ state.inFlight, ∀ id, hop.finalDest = .core id → id = hop.nextDest

theorem routePacket_hops {mesh : Mesh} {sender core : Nat} (inMesh : core < mesh.cores) {hop : Hop}
    (member : hop ∈ routePacket mesh sender core) :
    hop.nextDest < mesh.cores ∧ ∀ id, hop.finalDest = .core id → id = hop.nextDest := by
  have neighbour {condition : Prop} [Decidable condition] {x y : Int}
      (member : hop ∈ addHopIf condition .broadcast (computeCoreId mesh x y)) :
      hop.nextDest < mesh.cores ∧ ∀ id, hop.finalDest = .core id → id = hop.nextDest := by
    rw [mem_addHopIf member]
    exact ⟨computeCoreId_lt mesh x y, fun id impossible => by cases impossible⟩
  simp only [routePacket, List.mem_append] at member
  obtain (((member | member) | member) | member) | member := member
  · exact neighbour member
  · exact neighbour member
  · exact neighbour member
  · exact neighbour member
  · rw [mem_addHopIf member]
    exact ⟨inMesh, fun id self => by cases self; rfl⟩

theorem Flying.start {mesh : Mesh} {sender : Nat} (inMesh : sender < mesh.cores) : Flying mesh (netSend mesh sender) where
  broadcast := routePacket_broadcasts mesh sender sender
  inMesh _ member := (routePacket_hops inMesh member).1
  toSelf _ member := (routePacket_hops inMesh member).2

theorem Flying.receive {mesh : Mesh} {sender : Nat} {state next : State} {index : Nat} (flying : Flying mesh state)
    (stepped : (machine mesh sender).step state index = .ok next) :
    Flying mesh next ∧ ∃ core < mesh.cores, next.delivered = Function.update state.delivered core (state.delivered core + 1) := by
  simp only [machine] at stepped
  split at stepped
  case h_1 => cases stepped
  case h_2 hop found =>
    have member : hop ∈ state.inFlight := List.mem_of_getElem? found
    have here := flying.inMesh hop member
    have others {other : Hop} (member : other ∈ state.inFlight.eraseIdx index) : other ∈ state.inFlight :=
      List.mem_of_mem_eraseIdx member
    unfold netPull at stepped
    split at stepped
    case h_1 isBroadcast =>
      cases stepped
      refine ⟨⟨?_, ?_, ?_⟩, hop.nextDest, here, rfl⟩
      · obtain ⟨onward, sent⟩ := routePacket_broadcasts mesh sender hop.nextDest
        exact ⟨onward, List.mem_append_right _ sent⟩
      · intro other
        rw [List.mem_append]
        rintro (old | sent)
        · exact flying.inMesh other (others old)
        · exact (routePacket_hops here sent).1
      · intro other
        rw [List.mem_append]
        rintro (old | sent)
        · exact flying.toSelf other (others old)
        · exact (routePacket_hops here sent).2
    case h_2 id isCore =>
      split at stepped
      case isFalse => cases stepped
      case isTrue =>
        cases stepped
        refine ⟨⟨?_, fun other old => flying.inMesh other (others old), fun other old => flying.toSelf other (others old)⟩,
          hop.nextDest, here, rfl⟩
        -- The broadcast in flight is not the packet that was received.
        obtain ⟨onward, still⟩ := flying.broadcast
        refine ⟨onward, ?_⟩
        obtain ⟨position, there⟩ := List.getElem?_of_mem still
        have different : position ≠ index := by
          rintro rfl
          rw [found] at there
          cases there
          cases isCore
        rw [List.mem_eraseIdx_iff_getElem?]
        exact ⟨position, different, there⟩

theorem Flying.run {mesh : Mesh} {sender : Nat} {order : List Nat} {state next : State} (flying : Flying mesh state)
    (ran : (machine mesh sender).run state order = .ok next) :
    Flying mesh next ∧ ∑ core ∈ Finset.range mesh.cores, next.delivered core =
      ∑ core ∈ Finset.range mesh.cores, state.delivered core + order.length := by
  induction order generalizing state with
  | nil =>
    cases ran
    exact ⟨flying, rfl⟩
  | cons index rest ih =>
    cases stepped : (machine mesh sender).step state index with
    | error fault => simp [Machine.run, stepped] at ran
    | ok mid =>
      simp only [Machine.run, stepped] at ran
      obtain ⟨still, core, inMesh, delivered⟩ := flying.receive stepped
      obtain ⟨flies, total⟩ := ih still ran
      refine ⟨flies, ?_⟩
      rw [total, delivered, Finset.sum_update_of_mem (Finset.mem_range.mpr inMesh), List.length_cons]
      have split := Finset.sum_erase_add (Finset.range mesh.cores) state.delivered (Finset.mem_range.mpr inMesh)
      rw [Finset.sdiff_singleton_eq_erase]
      omega

theorem Flying.step {mesh : Mesh} (sender : Nat) {state : State} (flying : Flying mesh state) :
    ∃ next, (machine mesh sender).step state 0 = .ok next := by
  obtain ⟨onward, still⟩ := flying.broadcast
  cases packets : state.inFlight with
  | nil =>
    rw [packets] at still
    cases still
  | cons hop rest =>
    have first : state.inFlight[0]? = some hop := by simp [packets]
    simp only [machine, first, netPull]
    cases receiver : hop.finalDest with
    | broadcast => exact ⟨_, rfl⟩
    | core id =>
      have same := flying.toSelf hop (by rw [packets]; exact List.mem_cons_self) id receiver
      exact ⟨_, if_pos same⟩

theorem Flying.goesOn {mesh : Mesh} (sender : Nat) (length : Nat) {state : State} (flying : Flying mesh state) :
    ∃ order next, order.length = length ∧ (machine mesh sender).run state order = .ok next := by
  induction length generalizing state with
  | zero => exact ⟨[], state, rfl, rfl⟩
  | succ length ih =>
    obtain ⟨next, stepped⟩ := flying.step sender
    obtain ⟨order, last, counted, ran⟩ := ih (flying.receive stepped).1
    exact ⟨0 :: order, last, by simp [counted], by simp only [Machine.run, stepped, ran]⟩

theorem not_broadcasts (mesh : Mesh) {sender : Nat} (inMesh : sender < mesh.cores) : ¬Broadcasts mesh sender := by
  rintro ⟨⟨bound, ends⟩, -⟩
  obtain ⟨order, next, counted, ran⟩ := (Flying.start inMesh).goesOn sender (bound + 1)
  have short := ends order next ran
  omega

theorem delivered_twice (mesh : Mesh) {sender : Nat} (inMesh : sender < mesh.cores) :
    ∃ order state core, (machine mesh sender).run (netSend mesh sender) order = .ok state ∧ core < mesh.cores ∧
      2 ≤ state.delivered core := by
  obtain ⟨order, state, counted, ran⟩ := (Flying.start inMesh).goesOn sender (mesh.cores + 1)
  obtain ⟨-, total⟩ := (Flying.start inMesh).run ran
  by_contra once
  have atMostOnce : ∀ core ∈ Finset.range mesh.cores, state.delivered core ≤ 1 := by
    intro core member
    by_contra twice
    exact once ⟨order, state, core, ran, Finset.mem_range.mp member, by omega⟩
  have few := Finset.sum_le_sum atMostOnce
  rw [← Finset.card_eq_sum_ones, Finset.card_range] at few
  simp only [netSend, Finset.sum_const_zero] at total
  omega

/-- In every mesh and from every sender: the forwarding does not end, whatever the order of the receptions, and a
core gets the packet twice. -/
theorem broadcast_never_ends (mesh : Mesh) (sender : Nat) (inMesh : sender < mesh.cores) :
    ¬Broadcasts mesh sender ∧
    (∀ order state, (machine mesh sender).run (netSend mesh sender) order = .ok state → state.inFlight ≠ []) ∧
    ∃ order state core, (machine mesh sender).run (netSend mesh sender) order = .ok state ∧ core < mesh.cores ∧
      2 ≤ state.delivered core := by
  refine ⟨not_broadcasts mesh inMesh, ?_, delivered_twice mesh inMesh⟩
  intro order state ran landed
  obtain ⟨⟨⟨next, still⟩, -, -⟩, -⟩ := (Flying.start inMesh).run ran
  rw [landed] at still
  cases still

def twoByTwo : Mesh := ⟨2, 2, by decide, by decide⟩

theorem broadcast_never_ends_twoByTwo : ¬Broadcasts twoByTwo 0 :=
  (broadcast_never_ends twoByTwo 0 (by decide)).1

/-- Core 2 lies above and, around the edge, below core 0, so it receives the packet from both sides. -/
theorem broadcast_around_edge :
    ¬Broadcasts twoByTwo 0 ∧
    ∃ state, (machine twoByTwo 0).run (netSend twoByTwo 0) [0, 0] = .ok state ∧ state.delivered 2 = 2 ∧
      ⟨.broadcast, 0⟩ ∈ state.inFlight :=
  ⟨not_broadcasts twoByTwo (by decide), _, rfl, by decide, by decide⟩

end Sniper.Network
