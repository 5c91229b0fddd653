import Sniper.Library.Ring
import Sniper.Network.BroadcastTree

/-! Unicast packets in `NetworkModelEMeshHopByHop`: dimension-order routing, one node at a time. -/

namespace Sniper.Network

/-- A mesh or torus with several cores for each node. -/
structure Topology extends Mesh where
  concentration : Nat
  concentration_pos : 0 < concentration
  wrapAround : Bool

inductive OutputDirection where
  | up
  | down
  | left
  | right
  | self
  | peer
  | destination
deriving DecidableEq, Repr

namespace Topology

/-- `computeMeshDimensions` makes sure of this number. -/
def applicationCores (topology : Topology) : Nat := topology.concentration * topology.cores

def computePosition (topology : Topology) (core : Nat) : Int × Int :=
  Network.computePosition topology.toMesh (core / topology.concentration)

def computeCoreId (topology : Topology) (x y : Int) : Nat :=
  Network.computeCoreId topology.toMesh x y * topology.concentration

def computeDistance (topology : Topology) (sender receiver : Nat) : Int :=
  let (sx, sy) := topology.computePosition sender
  let (dx, dy) := topology.computePosition receiver
  if topology.wrapAround then Ring.distance topology.width sx dx + Ring.distance topology.height sy dy
  else |sx - dx| + |sy - dy|

/-- `m_fake_node`: a core that is not the master of its node, or no application core. -/
def fakeNode (topology : Topology) (core : Nat) : Bool :=
  core % topology.concentration ≠ 0 || core ≥ topology.applicationCores

def backwards (wrapAround : Bool) (size place target : Int) : Bool :=
  decide (place > target) ^^ (wrapAround && decide (|place - target| > (size + 1) / 2))

def getNextDest (topology : Topology) (core finalDest : Nat) : OutputDirection × Nat :=
  if finalDest ≥ topology.applicationCores then (.destination, finalDest)
  else if core / topology.concentration = finalDest / topology.concentration then (.destination, finalDest)
  else if topology.fakeNode core then (.peer, core - core % topology.concentration)
  else
    let (sx, sy) := topology.computePosition core
    let (dx, dy) := topology.computePosition finalDest
    if backwards topology.wrapAround topology.width sx dx then (.left, topology.computeCoreId (sx - 1) sy)
    else if sx ≠ dx then (.right, topology.computeCoreId (sx + 1) sy)
    else if backwards topology.wrapAround topology.height sy dy then (.down, topology.computeCoreId sx (sy - 1))
    else if sy ≠ dy then (.up, topology.computeCoreId sx (sy + 1))
    else (.self, core)

/-- `routePacket` for a unicast packet: where the core sends it next. -/
def routeUnicast (topology : Topology) (receiver core : Nat) : Nat :=
  if topology.fakeNode core then receiver else (topology.getNextDest core receiver).2

/-- The loop of `netSend`: the cores behind `nextDest` that route the packet on. -/
def forward (topology : Topology) (finalDest : Nat) : (fuel nextDest : Nat) → Option (List Nat)
  | fuel, nextDest =>
    if nextDest = finalDest then some []
    else match fuel with
      | 0 => none
      | fuel + 1 =>
        let next := topology.routeUnicast finalDest nextDest
        (topology.forward finalDest fuel next).map (next :: ·)

/-- `netSend` of a unicast packet, with every core that is a next destination of it. -/
def netSend (topology : Topology) (fuel sender receiver : Nat) : Option (List Nat) :=
  let next := topology.routeUnicast receiver sender
  (topology.forward receiver fuel next).map (next :: ·)

/-- A packet from the sender is at the receiver after so many hops, and not before. -/
def Arrives (topology : Topology) (sender receiver hops : Nat) : Prop :=
  (topology.routeUnicast receiver)^[hops] sender = receiver ∧
    ∀ fewer < hops, (topology.routeUnicast receiver)^[fewer] sender ≠ receiver

/-- Two nodes with a link between them, around the edges too. -/
inductive Linked (topology : Topology) (core : Nat) : Nat → Prop where
  | left {x y : Int} : topology.computePosition core = (x, y) → Linked topology core (topology.computeCoreId (x - 1) y)
  | right {x y : Int} : topology.computePosition core = (x, y) → Linked topology core (topology.computeCoreId (x + 1) y)
  | down {x y : Int} : topology.computePosition core = (x, y) → Linked topology core (topology.computeCoreId x (y - 1))
  | up {x y : Int} : topology.computePosition core = (x, y) → Linked topology core (topology.computeCoreId x (y + 1))

inductive Path (topology : Topology) (receiver : Nat) : Nat → Nat → Prop where
  | arrived : Path topology receiver receiver 0
  | link {core next hops : Nat} : topology.Linked core next → Path topology receiver next hops →
      Path topology receiver core (hops + 1)

structure RoutesWell (topology : Topology) (sender receiver : Nat) : Prop where
  arrives : topology.Arrives sender receiver (topology.computeDistance sender receiver).toNat
  terminates : ∃ fuel hops, topology.netSend fuel sender receiver = some hops
  shortest : topology.wrapAround = true → ∀ length, topology.Path receiver sender length →
    (topology.computeDistance sender receiver).toNat ≤ length

/-- No coordinate is one more than half the way around an odd ring. -/
def AvoidsMiddle (topology : Topology) (sender receiver : Nat) : Prop :=
  topology.wrapAround = true →
    2 * |(topology.computePosition sender).1 - (topology.computePosition receiver).1| ≠ topology.width + 1 ∧
    2 * |(topology.computePosition sender).2 - (topology.computePosition receiver).2| ≠ topology.height + 1

end Topology

/-! ### One axis -/

def axisHops (wrapAround : Bool) (size place target : Int) : Int :=
  if wrapAround && decide (|place - target| > (size + 1) / 2) then size - |place - target| else |place - target|

section Axis

variable {wrapAround : Bool} {size place target : Int}

theorem axis_cases (wrapAround : Bool) (size place target : Int) (apart : place ≠ target) :
    let next := if Topology.backwards wrapAround size place target then place - 1 else place + 1
    place < target ∧ wrapAround = true ∧ target - place > (size + 1) / 2 ∧ next = place - 1 ∨
      target < place ∧ wrapAround = true ∧ place - target > (size + 1) / 2 ∧ next = place + 1 ∨
      place < target ∧ (wrapAround = true → target - place ≤ (size + 1) / 2) ∧ next = place + 1 ∨
      target < place ∧ (wrapAround = true → place - target ≤ (size + 1) / 2) ∧ next = place - 1 := by
  rcases Int.lt_or_gt_of_ne apart with ahead | behind
  · have length : |place - target| = target - place := by rw [abs_of_neg (by omega), Int.neg_sub]
    cases wrapAround <;> by_cases far : target - place > (size + 1) / 2 <;>
      simp [Topology.backwards, length, far] <;> omega
  · have length : |place - target| = place - target := abs_of_pos (by omega)
    cases wrapAround <;> by_cases far : place - target > (size + 1) / 2 <;>
      simp [Topology.backwards, length, far] <;> omega

theorem axisHops_nonneg (wrapAround : Bool) (start : 0 ≤ place) (below : place < size) (targetStart : 0 ≤ target) (targetBelow : target < size) :
    0 ≤ axisHops wrapAround size place target := by
  have length : |place - target| < size := abs_lt.mpr ⟨by omega, by omega⟩
  have positive := abs_nonneg (place - target)
  rw [axisHops]
  split <;> omega

theorem axisHops_eq_zero (start : 0 ≤ place) (below : place < size) (targetStart : 0 ≤ target) (targetBelow : target < size) :
    axisHops wrapAround size place target = 0 ↔ place = target := by
  have length : |place - target| < size := abs_lt.mpr ⟨by omega, by omega⟩
  have same : |place - target| = 0 ↔ place = target := by rw [abs_eq_zero, Int.sub_eq_zero]
  rw [axisHops]
  split
  · constructor
    · intro none
      omega
    · intro equal
      have zero := same.mpr equal
      simp_all
      omega
  · exact same

theorem axisHops_behind (behind : target ≤ place) : axisHops wrapAround size place target =
    if wrapAround = true ∧ place - target > (size + 1) / 2 then size - (place - target) else place - target := by
  rw [axisHops, abs_of_nonneg (by omega)]
  simp only [Bool.and_eq_true, decide_eq_true_eq]

theorem axisHops_ahead (ahead : place ≤ target) : axisHops wrapAround size place target =
    if wrapAround = true ∧ target - place > (size + 1) / 2 then size - (target - place) else target - place := by
  rw [axisHops, abs_of_nonpos (by omega), Int.neg_sub]
  simp only [Bool.and_eq_true, decide_eq_true_eq]

theorem axisHops_next (wrapAround : Bool) (start : 0 ≤ place) (below : place < size) (targetStart : 0 ≤ target) (targetBelow : target < size)
    (apart : place ≠ target) :
    axisHops wrapAround size
      (Ring.wrap size (if Topology.backwards wrapAround size place target then place - 1 else place + 1)) target + 1 =
      axisHops wrapAround size place target := by
  obtain ⟨ahead, around, far, next⟩ | ⟨behind, around, far, next⟩ | ⟨ahead, near, next⟩ | ⟨behind, near, next⟩ :=
    axis_cases wrapAround size place target apart
  · rw [next, Ring.wrap_down start below, axisHops_ahead (Int.le_of_lt ahead), if_pos (And.intro around far)]
    split
    case isTrue atStart =>
      rw [axisHops_behind (by omega), if_neg (by omega)]
      omega
    case isFalse inner =>
      rw [axisHops_ahead (by omega), if_pos ⟨around, by omega⟩]
      omega
  · rw [next, Ring.wrap_up start below, axisHops_behind (Int.le_of_lt behind), if_pos (And.intro around far)]
    split
    case isTrue atEnd =>
      rw [axisHops_ahead (by omega), if_neg (by omega)]
      omega
    case isFalse inner =>
      rw [axisHops_behind (by omega), if_pos ⟨around, by omega⟩]
      omega
  · rw [next, Ring.wrap_of_inside (by omega) (by omega), axisHops_ahead (Int.le_of_lt ahead), axisHops_ahead (by omega),
      if_neg, if_neg]
    · omega
    · rintro ⟨around, far⟩
      have := near around
      omega
    · rintro ⟨around, far⟩
      have := near around
      omega
  · rw [next, Ring.wrap_of_inside (by omega) (by omega), axisHops_behind (Int.le_of_lt behind), axisHops_behind (by omega),
      if_neg, if_neg]
    · omega
    · rintro ⟨around, far⟩
      have := near around
      omega
    · rintro ⟨around, far⟩
      have := near around
      omega

/-- The way along a ring is the shorter one, unless the target is one more than half the way around. -/
theorem axisHops_eq_distance (wrapped : wrapAround = true) (size place target : Int) :
    Ring.distance size place target ≤ axisHops wrapAround size place target ∧
      (axisHops wrapAround size place target = Ring.distance size place target ↔ 2 * |place - target| ≠ size + 1) := by
  rcases Int.le_total target place with behind | ahead
  · rw [axisHops_behind behind, Ring.distance, abs_of_nonneg (by omega)]
    simp only [wrapped, true_and]
    split <;> omega
  · rw [axisHops_ahead ahead, Ring.distance, abs_of_nonpos (by omega), Int.neg_sub]
    simp only [wrapped, true_and]
    split <;> omega

theorem axisHops_straight (straight : wrapAround = false) : axisHops wrapAround size place target = |place - target| := by
  simp [axisHops, straight]

end Axis

/-! ### Nodes -/

namespace Topology

variable {topology : Topology} {core receiver : Nat}

theorem computePosition_inside (inMesh : core < topology.applicationCores) :
    (0 ≤ (topology.computePosition core).1 ∧ (topology.computePosition core).1 < topology.width) ∧
      0 ≤ (topology.computePosition core).2 ∧ (topology.computePosition core).2 < topology.height := by
  have node : core / topology.concentration < topology.cores := Nat.div_lt_of_lt_mul inMesh
  have column := Nat.mod_lt (core / topology.concentration) topology.width_pos
  have row : core / topology.concentration / topology.width < topology.height :=
    Nat.div_lt_of_lt_mul (by simpa [Mesh.cores] using node)
  simp only [computePosition, Network.computePosition]
  exact ⟨⟨Int.natCast_nonneg _, by exact_mod_cast column⟩, Int.natCast_nonneg _, by exact_mod_cast row⟩

theorem computePosition_computeCoreId (x y : Int) :
    topology.computePosition (topology.computeCoreId x y) = (Ring.wrap topology.width x, Ring.wrap topology.height y) := by
  have width : (0 : Int) < topology.width := by exact_mod_cast topology.width_pos
  have height : (0 : Int) < topology.height := by exact_mod_cast topology.height_pos
  have column := Int.emod_nonneg (x + topology.width) (Int.ne_of_gt width)
  have columnBelow := Int.emod_lt_of_pos (x + topology.width) width
  have row := Int.emod_nonneg (y + topology.height) (Int.ne_of_gt height)
  simp only [computePosition, computeCoreId, Network.computePosition, Network.computeCoreId,
    Nat.mul_div_cancel _ topology.concentration_pos, Ring.wrap]
  have node := Int.toNat_of_nonneg (Int.add_nonneg (Int.mul_nonneg row (Int.le_of_lt width)) column)
  push_cast
  rw [node]
  refine Prod.ext ?_ ?_
  · show (_ * (topology.width : Int) + _) % _ = _
    rw [Int.add_comm, Int.add_mul_emod_self_right, Int.emod_eq_of_lt column columnBelow]
  · show (_ * (topology.width : Int) + _) / _ = _
    rw [Int.add_comm, Int.add_mul_ediv_right _ _ (Int.ne_of_gt width), Int.ediv_eq_zero_of_lt column columnBelow, Int.zero_add]

theorem computeCoreId_lt (x y : Int) : topology.computeCoreId x y < topology.applicationCores := by
  rw [computeCoreId, applicationCores, Nat.mul_comm topology.concentration]
  exact Nat.mul_lt_mul_of_pos_right (Network.computeCoreId_lt _ x y) topology.concentration_pos

def nodeHops (topology : Topology) (sender receiver : Nat) : Int :=
  axisHops topology.wrapAround topology.width (topology.computePosition sender).1 (topology.computePosition receiver).1 +
    axisHops topology.wrapAround topology.height (topology.computePosition sender).2 (topology.computePosition receiver).2

theorem nodeHops_computeCoreId (x y : Int) : topology.nodeHops (topology.computeCoreId x y) receiver =
    axisHops topology.wrapAround topology.width (Ring.wrap topology.width x) (topology.computePosition receiver).1 +
      axisHops topology.wrapAround topology.height (Ring.wrap topology.height y) (topology.computePosition receiver).2 := by
  rw [nodeHops, computePosition_computeCoreId]

theorem nodeHops_nonneg (inMesh : core < topology.applicationCores) (receiverInMesh : receiver < topology.applicationCores) :
    0 ≤ topology.nodeHops core receiver := by
  obtain ⟨⟨left, right⟩, bottom, top⟩ := computePosition_inside inMesh
  obtain ⟨⟨left', right'⟩, bottom', top'⟩ := computePosition_inside receiverInMesh
  exact Int.add_nonneg (axisHops_nonneg _ left right left' right') (axisHops_nonneg _ bottom top bottom' top')

theorem nodeHops_eq_zero (alone : topology.concentration = 1) (inMesh : core < topology.applicationCores)
    (receiverInMesh : receiver < topology.applicationCores) : topology.nodeHops core receiver = 0 ↔ core = receiver := by
  obtain ⟨⟨left, right⟩, bottom, top⟩ := computePosition_inside inMesh
  obtain ⟨⟨left', right'⟩, bottom', top'⟩ := computePosition_inside receiverInMesh
  have column := axisHops_nonneg topology.wrapAround left right left' right'
  have row := axisHops_nonneg topology.wrapAround bottom top bottom' top'
  constructor
  · intro none
    rw [nodeHops] at none
    have sameColumn := (axisHops_eq_zero left right left' right').mp (by omega : axisHops topology.wrapAround _ _ _ = 0)
    have sameRow := (axisHops_eq_zero bottom top bottom' top').mp (by omega : axisHops topology.wrapAround _ _ _ = 0)
    simp only [computePosition, Network.computePosition, alone, Nat.div_one, Int.natCast_inj] at sameColumn sameRow
    rw [← Nat.div_add_mod core topology.width, sameColumn, sameRow, Nat.div_add_mod]
  · rintro rfl
    rw [nodeHops, (axisHops_eq_zero left right left right).mpr rfl, (axisHops_eq_zero bottom top bottom top).mpr rfl,
      Int.zero_add]

theorem routeUnicast_closer (alone : topology.concentration = 1) (inMesh : core < topology.applicationCores)
    (receiverInMesh : receiver < topology.applicationCores) (apart : core ≠ receiver) :
    topology.routeUnicast receiver core < topology.applicationCores ∧
      topology.nodeHops (topology.routeUnicast receiver core) receiver + 1 = topology.nodeHops core receiver := by
  obtain ⟨⟨left, right⟩, bottom, top⟩ := computePosition_inside inMesh
  obtain ⟨⟨left', right'⟩, bottom', top'⟩ := computePosition_inside receiverInMesh
  have real : topology.fakeNode core = false := by simp [fakeNode, alone, Nat.mod_one, inMesh]
  have notWarped : ¬receiver ≥ topology.applicationCores := by omega
  have notHere : ¬core / topology.concentration = receiver / topology.concentration := by simpa [alone] using apart
  have sent : topology.routeUnicast receiver core = (topology.getNextDest core receiver).2 := by simp [routeUnicast, real]
  rw [sent, getNextDest, if_neg notWarped, if_neg notHere, real, if_neg Bool.false_ne_true]
  by_cases sameColumn : (topology.computePosition core).1 = (topology.computePosition receiver).1
  · -- The column is right, so the packet moves along it.
    have straight : backwards topology.wrapAround topology.width (topology.computePosition core).1
        (topology.computePosition receiver).1 = false := by
      have positive : ¬((topology.width : Int) + 1) / 2 < 0 := by omega
      simp [backwards, sameColumn, positive]
    have otherRow : (topology.computePosition core).2 ≠ (topology.computePosition receiver).2 := by
      intro sameRow
      refine apart ((nodeHops_eq_zero alone inMesh receiverInMesh).mp ?_)
      rw [nodeHops, (axisHops_eq_zero left right left' right').mpr sameColumn,
        (axisHops_eq_zero bottom top bottom' top').mpr sameRow, Int.zero_add]
    have closer := axisHops_next topology.wrapAround bottom top bottom' top' otherRow
    have notBeside : ¬(topology.computePosition core).1 ≠ (topology.computePosition receiver).1 := not_not.mpr sameColumn
    simp only [straight, if_neg Bool.false_ne_true, if_neg notBeside, if_pos otherRow]
    split
    case isTrue down =>
      rw [if_pos down] at closer
      refine ⟨computeCoreId_lt _ _, ?_⟩
      rw [nodeHops_computeCoreId, nodeHops, ← closer, Ring.wrap_of_inside left right]
      omega
    case isFalse up =>
      rw [if_neg up] at closer
      refine ⟨computeCoreId_lt _ _, ?_⟩
      rw [nodeHops_computeCoreId, nodeHops, ← closer, Ring.wrap_of_inside left right]
      omega
  · have closer := axisHops_next topology.wrapAround left right left' right' sameColumn
    simp only [ne_eq, sameColumn, not_false_eq_true, if_true]
    split
    case isTrue leftwards =>
      rw [if_pos leftwards] at closer
      refine ⟨computeCoreId_lt _ _, ?_⟩
      rw [nodeHops_computeCoreId, nodeHops, ← closer, Ring.wrap_of_inside bottom top]
      omega
    case isFalse rightwards =>
      rw [if_neg rightwards] at closer
      refine ⟨computeCoreId_lt _ _, ?_⟩
      rw [nodeHops_computeCoreId, nodeHops, ← closer, Ring.wrap_of_inside bottom top]
      omega

theorem routeUnicast_self (receiver : Nat) : topology.routeUnicast receiver receiver = receiver := by
  rw [routeUnicast, getNextDest, if_pos (Eq.refl (receiver / topology.concentration))]
  split
  · rfl
  · split <;> rfl

theorem descends (alone : topology.concentration = 1) (receiverInMesh : receiver < topology.applicationCores) :
    Descends (topology.routeUnicast receiver) (· < topology.applicationCores)
      (fun core => (topology.nodeHops core receiver).toNat) where
  stays core inMesh := by
    by_cases same : core = receiver
    · subst same
      rw [routeUnicast_self]
      exact inMesh
    · exact (routeUnicast_closer alone inMesh receiverInMesh same).1
  closer core inMesh onTheWay := by
    have apart : core ≠ receiver := by
      rintro rfl
      rw [(nodeHops_eq_zero alone inMesh inMesh).mpr rfl] at onTheWay
      exact onTheWay rfl
    obtain ⟨next, closer⟩ := routeUnicast_closer alone inMesh receiverInMesh apart
    have rest := nodeHops_nonneg next receiverInMesh
    omega

theorem arrives_nodeHops (alone : topology.concentration = 1) {sender : Nat} (inMesh : sender < topology.applicationCores)
    (receiverInMesh : receiver < topology.applicationCores) {hops : Nat} :
    topology.Arrives sender receiver hops ↔ hops = (topology.nodeHops sender receiver).toNat := by
  have descends := descends alone receiverInMesh
  have there {count : Nat} (few : count ≤ (topology.nodeHops sender receiver).toNat) :
      (topology.routeUnicast receiver)^[count] sender = receiver ↔ count = (topology.nodeHops sender receiver).toNat := by
    have inside := descends.iterate_inside inMesh count
    have rest := descends.remaining_iterate inMesh few
    have nonneg := nodeHops_nonneg inside receiverInMesh
    rw [← nodeHops_eq_zero alone inside receiverInMesh]
    constructor <;> intro reached <;> omega
  constructor
  · rintro ⟨arrived, notBefore⟩
    by_contra different
    rcases Nat.lt_or_gt_of_ne different with early | late
    · exact different ((there (Nat.le_of_lt early)).mp arrived)
    · exact notBefore _ late ((there (Nat.le_refl _)).mpr rfl)
  · rintro rfl
    refine ⟨(there (Nat.le_refl _)).mpr rfl, fun fewer less reached => ?_⟩
    have same := (there (Nat.le_of_lt less)).mp reached
    omega

theorem forward_terminates (alone : topology.concentration = 1) (receiverInMesh : receiver < topology.applicationCores)
    {fuel next : Nat} (inMesh : next < topology.applicationCores) (enough : (topology.nodeHops next receiver).toNat ≤ fuel) :
    ∃ hops, topology.forward receiver fuel next = some hops ∧ hops.length = (topology.nodeHops next receiver).toNat := by
  induction fuel generalizing next with
  | zero =>
    have nonneg := nodeHops_nonneg inMesh receiverInMesh
    have here := (nodeHops_eq_zero alone inMesh receiverInMesh).mp (by omega)
    refine ⟨[], by simp [forward, here], ?_⟩
    rw [(nodeHops_eq_zero alone inMesh receiverInMesh).mpr here]
    rfl
  | succ fuel ih =>
    by_cases here : next = receiver
    · refine ⟨[], by simp [forward, here], ?_⟩
      rw [(nodeHops_eq_zero alone inMesh receiverInMesh).mpr here]
      rfl
    · obtain ⟨stays, closer⟩ := routeUnicast_closer alone inMesh receiverInMesh here
      have rest := nodeHops_nonneg stays receiverInMesh
      obtain ⟨hops, sent, length⟩ := ih stays (by omega)
      refine ⟨topology.routeUnicast receiver next :: hops, ?_, ?_⟩
      · rw [forward, if_neg here]
        simp only [sent, Option.map_some]
      · rw [List.length_cons, length]
        omega

theorem netSend_terminates (alone : topology.concentration = 1) {sender : Nat} (inMesh : sender < topology.applicationCores)
    (receiverInMesh : receiver < topology.applicationCores) :
    ∃ fuel hops, topology.netSend fuel sender receiver = some hops := by
  have stays := (descends alone receiverInMesh).stays sender inMesh
  let fuel := (topology.nodeHops (topology.routeUnicast receiver sender) receiver).toNat
  obtain ⟨hops, sent, -⟩ := forward_terminates alone receiverInMesh stays (Nat.le_refl fuel)
  refine ⟨fuel, topology.routeUnicast receiver sender :: hops, ?_⟩
  rw [netSend, sent, Option.map_some]

/-! ### Shortest routes -/

theorem computeDistance_nonneg (inMesh : core < topology.applicationCores) (receiverInMesh : receiver < topology.applicationCores) :
    0 ≤ topology.computeDistance core receiver := by
  obtain ⟨⟨left, right⟩, bottom, top⟩ := computePosition_inside inMesh
  obtain ⟨⟨left', right'⟩, bottom', top'⟩ := computePosition_inside receiverInMesh
  simp only [computeDistance]
  split
  · exact Int.add_nonneg (Ring.distance_nonneg left right left' right') (Ring.distance_nonneg bottom top bottom' top')
  · exact Int.add_nonneg (abs_nonneg _) (abs_nonneg _)

theorem computeDistance_torus (torus : topology.wrapAround = true) (sender receiver : Nat) :
    topology.computeDistance sender receiver =
      Ring.distance topology.width (topology.computePosition sender).1 (topology.computePosition receiver).1 +
        Ring.distance topology.height (topology.computePosition sender).2 (topology.computePosition receiver).2 := by
  simp only [computeDistance, torus, if_true]

theorem Linked.closer (torus : topology.wrapAround = true) {next : Nat} (inMesh : core < topology.applicationCores)
    (receiverInMesh : receiver < topology.applicationCores) (linked : topology.Linked core next) :
    next < topology.applicationCores ∧ topology.computeDistance core receiver ≤ topology.computeDistance next receiver + 1 := by
  obtain ⟨⟨left, right⟩, bottom, top⟩ := computePosition_inside inMesh
  obtain ⟨⟨left', right'⟩, bottom', top'⟩ := computePosition_inside receiverInMesh
  have sideways {x y : Int} (position : topology.computePosition core = (x, y)) {x' : Int}
      (closer : Ring.distance topology.width x (topology.computePosition receiver).1 ≤
        Ring.distance topology.width (Ring.wrap topology.width x') (topology.computePosition receiver).1 + 1) :
      topology.computeDistance core receiver ≤ topology.computeDistance (topology.computeCoreId x' y) receiver + 1 := by
    rw [position] at bottom top
    rw [computeDistance_torus torus, computeDistance_torus torus, computePosition_computeCoreId, position]
    dsimp only at bottom top ⊢
    rw [Ring.wrap_of_inside bottom top]
    omega
  have upright {x y : Int} (position : topology.computePosition core = (x, y)) {y' : Int}
      (closer : Ring.distance topology.height y (topology.computePosition receiver).2 ≤
        Ring.distance topology.height (Ring.wrap topology.height y') (topology.computePosition receiver).2 + 1) :
      topology.computeDistance core receiver ≤ topology.computeDistance (topology.computeCoreId x y') receiver + 1 := by
    rw [position] at left right
    rw [computeDistance_torus torus, computeDistance_torus torus, computePosition_computeCoreId, position]
    dsimp only at left right ⊢
    rw [Ring.wrap_of_inside left right]
    omega
  cases linked with
  | left position =>
    refine ⟨computeCoreId_lt _ _, sideways position ?_⟩
    rw [position] at left right
    exact Ring.distance_down left right left' right'
  | right position =>
    refine ⟨computeCoreId_lt _ _, sideways position ?_⟩
    rw [position] at left right
    exact Ring.distance_up left right left' right'
  | down position =>
    refine ⟨computeCoreId_lt _ _, upright position ?_⟩
    rw [position] at bottom top
    exact Ring.distance_down bottom top bottom' top'
  | up position =>
    refine ⟨computeCoreId_lt _ _, upright position ?_⟩
    rw [position] at bottom top
    exact Ring.distance_up bottom top bottom' top'

theorem Path.length_ge (torus : topology.wrapAround = true) {sender length : Nat} (path : topology.Path receiver sender length)
    (inMesh : sender < topology.applicationCores) (receiverInMesh : receiver < topology.applicationCores) :
    topology.computeDistance sender receiver ≤ length := by
  induction path with
  | arrived =>
    rw [computeDistance_torus torus, Ring.distance_self (Int.natCast_nonneg _), Ring.distance_self (Int.natCast_nonneg _)]
    exact Int.le_refl _
  | link linked _ ih =>
    obtain ⟨nextInMesh, closer⟩ := linked.closer torus inMesh receiverInMesh
    have rest := ih nextInMesh
    push_cast
    omega

/-! ### The distance and the hops -/

theorem nodeHops_eq_computeDistance (sender receiver : Nat) :
    topology.nodeHops sender receiver = topology.computeDistance sender receiver ↔ topology.AvoidsMiddle sender receiver := by
  cases torus : topology.wrapAround with
  | false => simp [nodeHops, computeDistance, AvoidsMiddle, torus, axisHops_straight]
  | true =>
    obtain ⟨least, column⟩ := axisHops_eq_distance torus topology.width (topology.computePosition sender).1
      (topology.computePosition receiver).1
    obtain ⟨least', row⟩ := axisHops_eq_distance torus topology.height (topology.computePosition sender).2
      (topology.computePosition receiver).2
    simp only [AvoidsMiddle, torus, forall_const]
    rw [nodeHops, computeDistance_torus torus, ← column, ← row]
    omega

/-- A packet reaches its receiver after exactly `computeDistance` hops, on a torus over a shortest route, if and only if
it need not go one more than half the way around an odd ring. -/
theorem routesWell_iff (topology : Topology) (alone : topology.concentration = 1) (sender receiver : Nat)
    (senderInMesh : sender < topology.applicationCores) (receiverInMesh : receiver < topology.applicationCores) :
    topology.RoutesWell sender receiver ↔ topology.AvoidsMiddle sender receiver := by
  have hops := nodeHops_nonneg senderInMesh receiverInMesh
  have distance := computeDistance_nonneg senderInMesh receiverInMesh
  rw [← nodeHops_eq_computeDistance]
  constructor
  · intro well
    have same := (arrives_nodeHops alone senderInMesh receiverInMesh).mp well.arrives
    omega
  · intro same
    refine ⟨?_, netSend_terminates alone senderInMesh receiverInMesh, ?_⟩
    · rw [arrives_nodeHops alone senderInMesh receiverInMesh, same]
    · intro torus length path
      have least := path.length_ge torus senderInMesh receiverInMesh
      omega

/-- A torus or mesh with one core for each node. -/
def single (width height : Nat) (widthPos : 0 < width) (heightPos : 0 < height) (wrapAround : Bool) : Topology where
  width := width
  height := height
  width_pos := widthPos
  height_pos := heightPos
  concentration := 1
  concentration_pos := Nat.one_pos
  wrapAround := wrapAround

def torusFiveFour : Topology := single 5 4 (by decide) (by decide) true

theorem routesWell_iff_torusFiveFour : torusFiveFour.RoutesWell 0 19 ↔ torusFiveFour.AvoidsMiddle 0 19 :=
  routesWell_iff torusFiveFour rfl 0 19 (by decide) (by decide)

def ringOfThree : Topology := single 3 1 (by decide) (by decide) true

/-- On a ring of three the packet goes from 0 over 1 to 2, although there is a link from 0 to 2. -/
theorem ringOfThree_not_shortest :
    ¬ringOfThree.RoutesWell 0 2 ∧ ringOfThree.computeDistance 0 2 = 1 ∧ ringOfThree.netSend 2 0 2 = some [1, 2] := by
  refine ⟨fun well => ?_, by decide, by decide⟩
  have arrived : ringOfThree.routeUnicast 2 0 = 2 := well.arrives.1
  exact absurd arrived (by decide)

end Topology

end Sniper.Network
