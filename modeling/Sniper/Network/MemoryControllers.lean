import Sniper.Network.BroadcastTree
import Mathlib.Data.List.GetD
import Mathlib.Data.Nat.ModEq

/-! Where `NetworkModelEMeshHopByHop` puts the memory controllers: along the perimeter of the mesh. -/

namespace Sniper.Network

/-- `network/emesh_hop_by_hop/size`. -/
inductive MeshSize where
  /-- The empty string. -/
  | automatic
  | given (width height : Nat)
  /-- A string that is not "width:height". -/
  | unreadable
deriving DecidableEq, Repr

/-- The configuration that the static functions read. -/
structure MeshConfig where
  applicationCores : Nat
  /-- `perf_model/core/logical_cpus` -/
  smtCores : Nat
  /-- `network/emesh_hop_by_hop/concentration` -/
  nodeCores : Nat
  dimensions : Nat
  size : MeshSize
deriving DecidableEq, Repr

inductive MeshFault where
  /-- "Invalid value %d for dimensions, only 1 (line/ring) and 2 (mesh/torus) are currently supported" -/
  | invalidDimensions
  /-- "Cannot build a mesh with %d cores (concentration %d), ..." -/
  | cannotBuild
  /-- "Invalid mesh size \"%s\", expected \"width:height\"" -/
  | unreadableSize
  /-- "Invalid mesh size %s for %d cores (concentration %d): ..." -/
  | invalidSize
  /-- `assert(core_id_list_along_perimeter.size() == ...)` -/
  | perimeterLength
  /-- "num cores along perimeter(%u), num memory controllers(%i)" -/
  | tooManyControllers
deriving DecidableEq, Repr

namespace MeshConfig

def concentration (config : MeshConfig) : Nat := config.nodeCores * config.smtCores

/-- The width and the height.  Where the quotient of doubles is no integer the product is wrong, whatever `ceil` makes of it. -/
def computeMeshDimensions (config : MeshConfig) : Except MeshFault (Nat × Nat) :=
  match config.size with
  | .automatic => do
      let (width, height) ← match config.dimensions with
        | 1 => Except.ok (config.applicationCores / config.concentration, 1)
        | 2 =>
          let width := (config.applicationCores / config.concentration).sqrt
          let nodes := config.concentration * width
          Except.ok (width, (config.applicationCores + nodes - 1) / nodes)
        | _ => .error .invalidDimensions
      if config.applicationCores = config.concentration * height * width then Except.ok (width, height)
      else .error .cannotBuild
  | .given width height =>
    if config.applicationCores = config.concentration * height * width then .ok (width, height) else .error .invalidSize
  | .unreadable => .error .unreadableSize

/-- `core_id_list_along_perimeter`: the four loops. -/
def perimeter (dimensions width height : Nat) : List Nat :=
  List.range width ++
    if dimensions > 1 ∧ height > 1 then
      (List.range' 1 (height - 2)).map (fun i => i * width + (width - 1)) ++
        (List.range width).reverse.map (fun i => (height - 1) * width + i) ++
        (List.range' 1 (height - 2)).reverse.map (fun i => i * width)
    else []

def computeMemoryControllerPositions (config : MeshConfig) (numMemoryControllers : Nat) : Except MeshFault (List Nat) := do
  let (width, height) ← config.computeMeshDimensions
  let perimeter := perimeter config.dimensions width height
  if config.dimensions > 1 ∧ height > 1 ∧ perimeter.length ≠ 2 * (width + height - 2) then Except.error .perimeterLength
  else if perimeter.length < numMemoryControllers then Except.error .tooManyControllers
  else
    let spacing := perimeter.length / numMemoryControllers
    Except.ok ((List.range numMemoryControllers).map fun i =>
      config.concentration * perimeter.getD ((i * spacing + width / 2) % perimeter.length) 0)

structure WellPlaced (config : MeshConfig) (numMemoryControllers : Nat) (positions : List Nat) : Prop where
  length : positions.length = numMemoryControllers
  distinct : positions.Nodup
  masters : ∀ core ∈ positions, config.concentration ∣ core
  inMesh : ∀ core ∈ positions, core < config.applicationCores

/-- The perimeter of a mesh of width 1 goes up and down again.  Two of the samples are at one height. -/
def Folds (height numMemoryControllers : Nat) : Prop :=
  let length := 2 * height - 2
  let spacing := length / numMemoryControllers
  spacing ∣ length ∧ length / spacing + 3 ≤ 2 * numMemoryControllers

instance (height numMemoryControllers : Nat) : Decidable (Folds height numMemoryControllers) :=
  inferInstanceAs (Decidable (_ ∧ _))

end MeshConfig

open MeshConfig

/-! ### The perimeter -/

section Perimeter

variable {dimensions width height row column row' column' : Nat}

theorem node_inj (inRow : column < width) (inRow' : column' < width) (same : row * width + column = row' * width + column') :
    row = row' ∧ column = column' := by
  have positive : 0 < width := by omega
  have sameRow := congrArg (· / width) same
  have sameColumn := congrArg (· % width) same
  simp only [Nat.mul_comm _ width, Nat.mul_add_div positive, Nat.div_eq_of_lt inRow, Nat.div_eq_of_lt inRow', Nat.add_zero,
    Nat.mul_add_mod, Nat.mod_eq_of_lt inRow, Nat.mod_eq_of_lt inRow'] at sameRow sameColumn
  exact ⟨sameRow, sameColumn⟩

theorem node_lt (inRow : column < width) (inMesh : row < height) : row * width + column < height * width := by
  have below : (row + 1) * width ≤ height * width := Nat.mul_le_mul_right width inMesh
  rw [Nat.succ_mul] at below
  omega

theorem mem_perimeter {node : Nat} (positive : 0 < width) : node ∈ perimeter dimensions width height →
    node < width ∨ dimensions > 1 ∧ height > 1 ∧
      ∃ row column, column < width ∧ row < height ∧ node = row * width + column := by
  intro member
  rw [perimeter, List.mem_append, List.mem_range] at member
  split at member
  case isFalse => exact .inl (by simpa using member)
  case isTrue around =>
    refine member.imp_right fun member => ⟨around.1, around.2, ?_⟩
    simp only [List.mem_append, List.mem_map, List.mem_reverse, List.mem_range', List.mem_range, Nat.one_mul] at member
    obtain (⟨_, ⟨i, below, rfl⟩, rfl⟩ | ⟨i, below, rfl⟩) | ⟨_, ⟨i, below, rfl⟩, rfl⟩ := member
    · exact ⟨1 + i, width - 1, by omega, by omega, rfl⟩
    · exact ⟨height - 1, i, below, by omega, rfl⟩
    · exact ⟨1 + i, 0, positive, by omega, rfl⟩

theorem perimeter_lt {node : Nat} (positive : 0 < width) (high : 0 < height) (member : node ∈ perimeter dimensions width height) :
    node < height * width := by
  obtain first | ⟨-, -, row, column, inRow, inMesh, rfl⟩ := mem_perimeter positive member
  · exact Nat.lt_of_lt_of_le first (Nat.le_mul_of_pos_left width high)
  · exact node_lt inRow inMesh

theorem perimeter_length (positive : 0 < width) : (perimeter dimensions width height).length =
    if dimensions > 1 ∧ height > 1 then 2 * (width + height - 2) else width := by
  rw [perimeter]
  split
  case isTrue around =>
    simp only [List.length_append, List.length_map, List.length_reverse, List.length_range', List.length_range]
    omega
  case isFalse => simp

theorem perimeter_nodup (wide : ¬(dimensions > 1 ∧ height > 1) ∨ 2 ≤ width) : (perimeter dimensions width height).Nodup := by
  rw [perimeter]
  split
  case isFalse => simpa using List.nodup_range
  case isTrue around =>
    have wide : 2 ≤ width := wide.resolve_left (not_not.mpr around)
    have right : ((List.range' 1 (height - 2)).map fun i => i * width + (width - 1)).Nodup :=
      List.Nodup.map (fun first second same => (node_inj (by omega) (by omega) same).1) (List.nodup_range' 1)
    have top : ((List.range width).reverse.map fun i => (height - 1) * width + i).Nodup :=
      List.Nodup.map (fun first second same => Nat.add_left_cancel same) (List.nodup_reverse.mpr List.nodup_range)
    have left : ((List.range' 1 (height - 2)).reverse.map fun i => i * width).Nodup :=
      List.Nodup.map (fun first second same => Nat.eq_of_mul_eq_mul_right (by omega) same)
        (List.nodup_reverse.mpr (List.nodup_range' 1))
    refine List.nodup_append.mpr ⟨List.nodup_range, List.nodup_append.mpr ⟨List.nodup_append.mpr ⟨right, top, ?_⟩, left, ?_⟩, ?_⟩
    · simp only [List.mem_map, List.mem_reverse, List.mem_range', List.mem_range, Nat.one_mul]
      rintro _ ⟨_, ⟨i, below, rfl⟩, rfl⟩ _ ⟨j, inRow, rfl⟩ same
      have sameRow := (node_inj (by omega) inRow same).1
      omega
    · simp only [List.mem_append, List.mem_map, List.mem_reverse, List.mem_range', List.mem_range, Nat.one_mul]
      rintro _ (⟨_, ⟨i, below, rfl⟩, rfl⟩ | ⟨i, inRow, rfl⟩) _ ⟨_, ⟨j, below', rfl⟩, rfl⟩ same
      · have sameColumn := (node_inj (by omega) (by omega) (same.trans (Nat.add_zero _).symm)).2
        omega
      · have sameRow := (node_inj inRow (by omega) (same.trans (Nat.add_zero _).symm)).1
        omega
    · simp only [List.mem_append, List.mem_map, List.mem_reverse, List.mem_range', List.mem_range, Nat.one_mul]
      have first {i : Nat} : i = 0 * width + i := by omega
      rintro i inRow _ ((⟨_, ⟨j, below, rfl⟩, rfl⟩ | ⟨j, inRow', rfl⟩) | ⟨_, ⟨j, below, rfl⟩, rfl⟩) same
      · have sameRow := (node_inj inRow (by omega) (first.symm.trans same)).1
        omega
      · have sameRow := (node_inj inRow inRow' (first.symm.trans same)).1
        omega
      · have sameRow := (node_inj inRow (by omega) ((first.symm.trans same).trans (Nat.add_zero _).symm)).1
        omega

theorem perimeter_oneWide (high : 1 < height) (planar : dimensions > 1) : perimeter dimensions 1 height =
    (List.range (2 * height - 2)).map fun place => if place < height then place else 2 * height - 2 - place := by
  have length : (perimeter dimensions 1 height).length = 2 * height - 2 := by
    rw [perimeter_length Nat.one_pos, if_pos ⟨planar, high⟩]
    omega
  refine List.ext_getElem (by simpa using length) fun place inside inside' => ?_
  rw [length] at inside
  simp only [perimeter, if_pos (And.intro planar high), List.getElem_map, List.getElem_range, List.getElem_append,
    List.length_range, List.length_append, List.length_map, List.length_reverse, List.length_range', List.getElem_reverse,
    List.getElem_range', Nat.mul_one, Nat.one_mul, Nat.sub_self, Nat.add_zero]
  repeat' split
  all_goals omega

end Perimeter

/-! ### The samples -/

section Samples

variable {length count spacing offset : Nat}

theorem spacing_fits (positive : 0 < count) (enough : count ≤ length) : 0 < length / count ∧ count * (length / count) ≤ length :=
  ⟨Nat.div_pos enough positive, Nat.mul_div_le length count⟩

theorem sample_inj (spaced : 0 < spacing) (fits : count * spacing ≤ length) {first second : Nat} (before : first < count)
    (before' : second < count) (same : (first * spacing + offset) % length = (second * spacing + offset) % length) :
    first = second := by
  have congruent : Nat.ModEq length (first * spacing) (second * spacing) := Nat.ModEq.add_right_cancel' offset same
  have below {index : Nat} (before : index < count) : index * spacing < length :=
    Nat.lt_of_lt_of_le ((Nat.mul_lt_mul_right spaced).mpr before) fits
  have equal := Nat.ModEq.eq_of_lt_of_lt congruent (below before) (below before')
  exact Nat.eq_of_mul_eq_mul_right spaced equal

/-- Two samples of the way up and down meet at one height if and only if their places add up to the whole length. -/
theorem meets_iff {height first second : Nat} (before : first < second) (inside : second < 2 * height - 2) :
    (if first < height then first else 2 * height - 2 - first) = (if second < height then second else 2 * height - 2 - second) ↔
      first + second = 2 * height - 2 := by
  split <;> split <;> omega

theorem folds_iff {height : Nat} (positive : 0 < count) (enough : count ≤ 2 * height - 2) :
    Folds height count ↔ ∃ first second, first < second ∧ second < count ∧
      first * ((2 * height - 2) / count) + second * ((2 * height - 2) / count) = 2 * height - 2 := by
  obtain ⟨spaced, fits⟩ := spacing_fits positive enough
  simp only [Folds]
  generalize (2 * height - 2) / count = spacing at *
  generalize 2 * height - 2 = length at *
  constructor
  · rintro ⟨⟨turns, rfl⟩, few⟩
    rw [Nat.mul_div_cancel_left _ spaced] at few
    have many : count ≤ turns := Nat.le_of_mul_le_mul_right (by rw [Nat.mul_comm turns]; exact fits) spaced
    refine ⟨turns - (count - 1), count - 1, by omega, by omega, ?_⟩
    rw [← Nat.add_mul, Nat.sub_add_cancel (by omega), Nat.mul_comm]
  · rintro ⟨first, second, before, last, sum⟩
    rw [← Nat.add_mul] at sum
    refine ⟨⟨first + second, by rw [← sum, Nat.mul_comm]⟩, ?_⟩
    rw [← sum, Nat.mul_div_cancel _ spaced]
    omega

end Samples

/-! ### The positions -/

namespace MeshConfig

variable {config : MeshConfig} {width height numMemoryControllers : Nat}

theorem computeMeshDimensions_cores (dimensions : config.computeMeshDimensions = .ok (width, height)) :
    config.applicationCores = config.concentration * height * width := by
  have checked {fault : MeshFault} {w h : Nat}
      (passed : (if config.applicationCores = config.concentration * h * w then Except.ok (w, h) else .error fault) =
        Except.ok (width, height)) : config.applicationCores = config.concentration * height * width := by
    split at passed
    case isTrue product =>
      cases passed
      exact product
    case isFalse => cases passed
  cases size : config.size with
  | automatic =>
    simp only [computeMeshDimensions, size, bind, Except.bind] at dimensions
    split at dimensions
    case h_1 => exact checked dimensions
    case h_2 => exact checked dimensions
    case h_3 => cases dimensions
  | given w h =>
    simp only [computeMeshDimensions, size] at dimensions
    exact checked dimensions
  | unreadable =>
    simp only [computeMeshDimensions, size] at dimensions
    cases dimensions

/-- The places on the perimeter that are sampled. -/
def samples (config : MeshConfig) (width height numMemoryControllers : Nat) : List Nat :=
  let perimeter := perimeter config.dimensions width height
  (List.range numMemoryControllers).map fun i =>
    perimeter.getD ((i * (perimeter.length / numMemoryControllers) + width / 2) % perimeter.length) 0

theorem computeMemoryControllerPositions_eq (dimensions : config.computeMeshDimensions = .ok (width, height)) (wide : 0 < width)
    (accepted : numMemoryControllers ≤ (perimeter config.dimensions width height).length) :
    config.computeMemoryControllerPositions numMemoryControllers =
      .ok ((config.samples width height numMemoryControllers).map (config.concentration * ·)) := by
  have length : ¬(config.dimensions > 1 ∧ height > 1 ∧
      (perimeter config.dimensions width height).length ≠ 2 * (width + height - 2)) := by
    rintro ⟨planar, high, different⟩
    rw [perimeter_length wide, if_pos ⟨planar, high⟩] at different
    exact different rfl
  simp only [computeMemoryControllerPositions, dimensions, bind, Except.bind, if_neg length, if_neg (Nat.not_lt.mpr accepted),
    samples, List.map_map]
  rfl

theorem samples_lt (wide : 0 < width) (high : 0 < height) (some : 0 < numMemoryControllers)
    (accepted : numMemoryControllers ≤ (perimeter config.dimensions width height).length) {node : Nat}
    (member : node ∈ config.samples width height numMemoryControllers) : node < height * width := by
  obtain ⟨i, -, rfl⟩ := List.mem_map.mp member
  have inside := Nat.mod_lt (i * ((perimeter config.dimensions width height).length / numMemoryControllers) + width / 2)
    (Nat.lt_of_lt_of_le some accepted)
  rw [List.getD_eq_getElem _ _ inside]
  exact perimeter_lt wide high (List.getElem_mem inside)

theorem samples_nodup (some : 0 < numMemoryControllers)
    (accepted : numMemoryControllers ≤ (perimeter config.dimensions width height).length)
    (nodup : (perimeter config.dimensions width height).Nodup) : (config.samples width height numMemoryControllers).Nodup := by
  obtain ⟨spaced, fits⟩ := spacing_fits some accepted
  have inside (index : Nat) := Nat.mod_lt index (Nat.lt_of_lt_of_le some accepted)
  refine List.Nodup.map_on ?_ List.nodup_range
  intro first firstBelow second secondBelow same
  rw [List.getD_eq_getElem _ _ (inside _), List.getD_eq_getElem _ _ (inside _)] at same
  exact sample_inj spaced fits (List.mem_range.mp firstBelow) (List.mem_range.mp secondBelow)
    ((List.Nodup.getElem_inj_iff nodup).mp same)

theorem samples_oneWide (some : 0 < numMemoryControllers) (planar : config.dimensions > 1) (high : 1 < height)
    (accepted : numMemoryControllers ≤ 2 * height - 2) :
    (config.samples 1 height numMemoryControllers).Nodup ↔ ¬Folds height numMemoryControllers := by
  obtain ⟨spaced, fits⟩ := spacing_fits some accepted
  have below {i : Nat} (before : i < numMemoryControllers) :
      i * ((2 * height - 2) / numMemoryControllers) < 2 * height - 2 :=
    Nat.lt_of_lt_of_le ((Nat.mul_lt_mul_right spaced).mpr before) fits
  let fold (place : Nat) := if place < height then place else 2 * height - 2 - place
  have samples : config.samples 1 height numMemoryControllers =
      (List.range numMemoryControllers).map fun i => fold (i * ((2 * height - 2) / numMemoryControllers)) := by
    simp only [MeshConfig.samples, perimeter_oneWide high planar, List.length_map, List.length_range]
    refine List.map_congr_left fun i before => ?_
    have inside := below (List.mem_range.mp before)
    rw [show 1 / 2 = 0 from rfl, Nat.add_zero, Nat.mod_eq_of_lt inside, List.getD_eq_getElem _ _ (by simpa using inside),
      List.getElem_map, List.getElem_range]
  rw [folds_iff some accepted, samples]
  constructor
  · rintro nodup ⟨first, second, before, last, sum⟩
    have apart := (Nat.mul_lt_mul_right spaced).mpr before
    have same := (meets_iff apart (below last)).mpr sum
    have equal := List.inj_on_of_nodup_map nodup (List.mem_range.mpr (Nat.lt_trans before last)) (List.mem_range.mpr last) same
    omega
  · intro never
    refine List.Nodup.map_on ?_ List.nodup_range
    intro first firstBelow second secondBelow same
    rw [List.mem_range] at firstBelow secondBelow
    rcases Nat.lt_trichotomy first second with before | equal | after
    · have apart := (Nat.mul_lt_mul_right spaced).mpr before
      exact absurd ⟨first, second, before, secondBelow, (meets_iff apart (below secondBelow)).mp same⟩ never
    · exact equal
    · have apart := (Nat.mul_lt_mul_right spaced).mpr after
      exact absurd ⟨second, first, after, firstBelow, (meets_iff apart (below firstBelow)).mp same.symm⟩ never

/-- The controllers are at distinct masters of the mesh, unless the mesh is one wide and two samples of the way up and down
its only column are at one height. -/
theorem memoryControllers_wellPlaced_iff (config : MeshConfig) (width height numMemoryControllers : Nat)
    (dimensions : config.computeMeshDimensions = .ok (width, height)) (wide : 1 ≤ width) (high : 1 ≤ height)
    (shared : 1 ≤ config.concentration) (some : 1 ≤ numMemoryControllers)
    (accepted : numMemoryControllers ≤ (perimeter config.dimensions width height).length) :
    (∃ positions, config.computeMemoryControllerPositions numMemoryControllers = .ok positions ∧
      config.WellPlaced numMemoryControllers positions) ↔
      ¬(config.dimensions > 1 ∧ width = 1 ∧ height > 1 ∧ Folds height numMemoryControllers) := by
  have distinct : (config.samples width height numMemoryControllers).Nodup ↔
      ¬(config.dimensions > 1 ∧ width = 1 ∧ height > 1 ∧ Folds height numMemoryControllers) := by
    by_cases narrow : config.dimensions > 1 ∧ width = 1 ∧ height > 1
    · obtain ⟨planar, rfl, tall⟩ := narrow
      rw [perimeter_length Nat.one_pos, if_pos ⟨planar, tall⟩] at accepted
      rw [samples_oneWide some planar tall (by omega)]
      simp [planar, tall]
    · have nodup : (perimeter config.dimensions width height).Nodup := perimeter_nodup (by omega)
      exact iff_of_true (samples_nodup some accepted nodup) fun bad => narrow ⟨bad.1, bad.2.1, bad.2.2.1⟩
  rw [← distinct, computeMemoryControllerPositions_eq dimensions wide accepted]
  constructor
  · rintro ⟨_, placed, well⟩
    cases placed
    exact List.Nodup.of_map _ well.distinct
  · intro nodup
    refine ⟨_, rfl, ?_, nodup.map fun first second same => Nat.eq_of_mul_eq_mul_left shared same, ?_, ?_⟩
    · simp [samples]
    · intro core member
      obtain ⟨node, -, rfl⟩ := List.mem_map.mp member
      exact Nat.dvd_mul_right _ _
    · intro core member
      obtain ⟨node, sampled, rfl⟩ := List.mem_map.mp member
      rw [computeMeshDimensions_cores dimensions, Nat.mul_assoc]
      exact Nat.mul_lt_mul_of_pos_left (samples_lt wide high some accepted sampled) shared

def sixteenCores : MeshConfig := ⟨16, 2, 1, 2, .given 2 4⟩

theorem memoryControllers_wellPlaced_sixteenCores :
    (∃ positions, sixteenCores.computeMemoryControllerPositions 4 = .ok positions ∧ sixteenCores.WellPlaced 4 positions) ↔
      ¬(2 > 1 ∧ 2 = 1 ∧ 4 > 1 ∧ Folds 4 4) :=
  memoryControllers_wellPlaced_iff sixteenCores 2 4 4 (by decide) (by decide) (by decide) (by decide) (by decide) (by decide)

def columnOfFour : MeshConfig := ⟨4, 1, 1, 2, .given 1 4⟩

/-- Three controllers on a column of four nodes: two of them are put at core 2. -/
theorem columnOfFour_misplaced : columnOfFour.computeMemoryControllerPositions 3 = .ok [0, 2, 2] ∧
    ¬∃ positions, columnOfFour.computeMemoryControllerPositions 3 = .ok positions ∧ columnOfFour.WellPlaced 3 positions := by
  have placed : columnOfFour.computeMemoryControllerPositions 3 = .ok [0, 2, 2] := by decide
  refine ⟨placed, ?_⟩
  rintro ⟨positions, same, well⟩
  rw [placed] at same
  cases same
  exact absurd well.distinct (by decide)

end MeshConfig

end Sniper.Network
