import VoxelFeatures.Feature.Basic
import VoxelFeatures.Proofs.NearActs

/-!
# The columns that plants and other features act on

A scatter placer draws its cells less than eight columns off and plants in the
column that it drew, or looks at the neighbours of it. The other features here
are laid around their origin with radii that are drawn from fixed ranges.
-/

namespace VoxelFeatures

/-! ## Plants -/

section Scatter

variable {C : Pos → Prop}

theorem jitter_range (bound : Int32) (hb : 0 < bound) :
    (jitter bound).Only (Act.In C) ∧
      ∀ d, (jitter bound).Returns d → d.toInt.natAbs < bound.toInt.natAbs := by
  refine ⟨by simp [jitter], fun d hd => ?_⟩
  simp only [jitter, Build.returns_bind, Build.returns_bounded] at hd
  obtain ⟨ahead, hahead, back, hback, rfl⟩ := hd
  have hzero : (0 : Int32).toInt = 0 := Int32.toInt_zero
  have hbound := toInt_range bound
  have hahead := hahead.1 hb
  have hback := hback.1 hb
  rw [Int32.le_iff_toInt_le, Int32.lt_iff_toInt_lt] at hahead hback
  rw [Int32.toInt_sub, Int.bmod_eq_of_le (by omega) (by omega)]
  omega

theorem scatter_near (p : Pos) :
    (scatter p).Only (Act.In C) ∧ ∀ q, (scatter p).Returns q → p.Near 7 q := by
  have hwide := jitter_range (C := C) 8 (by decide)
  have htall := jitter_range (C := C) 4 (by decide)
  refine ⟨?_, fun q hq => ?_⟩
  · exact .bind hwide.1 fun _ => .bind htall.1 fun _ => .bind hwide.1 fun _ => .done _
  · simp only [scatter, Build.returns_bind] at hq
    obtain ⟨dx, hx, dy, -, dz, hz, rfl⟩ := hq
    exact p.near_shift dy (Nat.le_of_lt_succ (hwide.2 dx hx)) (Nat.le_of_lt_succ (hwide.2 dz hz))

theorem only_isPlantable_in (soils : BlockSet) {p : Pos} (hp : C p) (hdown : C (p.down 1)) :
    (isPlantable soils p).Only (Act.In C) := by
  simp [isPlantable, hp, hdown]

theorem near_plantAround (n : Nat) (soils : BlockSet) {plant : Pos → Build Unit} {r : Nat}
    (hplant : ∀ q, (plant q).Only (Act.In (q.Near r))) (p : Pos) :
    (plantAround n soils plant p).Only (Act.In (p.Near (7 + r))) := by
  have htrial : (plantTrial soils plant p).Only (Act.In (p.Near (7 + r))) := by
    refine .bind_of (scatter_near p) fun q hq => .ite ?_ (.done ())
    have hq' : p.Near (7 + r) q := hq.mono (Nat.le_add_right 7 r)
    refine .bind (only_isPlantable_in soils hq' hq') fun free => .ite ?_ (.done ())
    exact (hplant q).near_trans hq
  exact .bind (htrial.repeated n) fun _ => .done true

end Scatter

namespace Patch

theorem near_bush (plant : Plant) (p : Pos) : (bush plant p).Only (Act.In (p.Near 7)) :=
  near_plantAround (r := 0) 64 bushSoils (by simp) p

theorem near_deadBush (p : Pos) : (deadBush p).Only (Act.In (p.Near 7)) :=
  near_plantAround (r := 0) 4 deadBushSoils (by simp) p

theorem near_tallGrass (data : UInt8) (p : Pos) : (tallGrass data p).Only (Act.In (p.Near 7)) :=
  near_plantAround (r := 0) 128 tallGrassSoils (by simp) p

theorem near_waterLily (p : Pos) : (waterLily p).Only (Act.In (p.Near 7)) :=
  near_plantAround (r := 0) 10 lilySoils (by simp) p

theorem near_pumpkin (p : Pos) : (pumpkin p).Only (Act.In (p.Near 7)) :=
  near_plantAround (r := 0) 64 grassSoil (by simp [orientation]) p

theorem near_turned (id : BlockId) (p : Pos) : (turned id p).Only (Act.In (p.Near 7)) :=
  near_plantAround (r := 0) 64 grassSoil (by simp [orientation]) p

end Patch

namespace Stalk

theorem near_grow (id : BlockId) (height : Int32) (p : Pos) (r : Nat) :
    (grow id height p).Only (Act.In (p.Near r)) := by
  simp [grow]

theorem near_cactus (p : Pos) : (cactus p).Only (Act.In (p.Near 7)) :=
  near_plantAround (r := 0) 10 cactusSoils (by simp [height, near_grow]) p

theorem near_hasWaterBeside (ground : Pos) :
    (hasWaterBeside ground).Only (Act.In (ground.Near 1)) :=
  .anyM fun f _ => by simp [ground.near_offset f]

theorem near_caneTrial (p : Pos) : (caneTrial p).Only (Act.In (p.Near 4)) := by
  refine .bind_of (jitter_range 4 (by decide)) fun dx hx => ?_
  refine .bind_of (jitter_range 4 (by decide)) fun dz hz => .ite ?_ (.done ())
  have hq : p.Near 3 (p + ⟨dx, 0, dz⟩) :=
    p.near_shift 0 (Nat.le_of_lt_succ hx) (Nat.le_of_lt_succ hz)
  generalize p + ⟨dx, 0, dz⟩ = q at hq
  have hq' : p.Near 4 q := hq.mono (by decide)
  refine .bind (only_isPlantable_in caneSoils hq' hq') fun free => .ite ?_ (.done ())
  refine .bind ((near_hasWaterBeside (q.down 1)).near_trans hq) fun wet => .ite ?_ (.done ())
  exact .bind (by simp [height]) fun h => (near_grow .sugarCanes h q 1).near_trans hq

theorem near_sugarCanes (p : Pos) : (sugarCanes p).Only (Act.In (p.Near 4)) :=
  .bind ((near_caneTrial p).repeated 20) fun _ => .done true

end Stalk

namespace TallPlant

theorem near_trial (t : TallPlant) (p : Pos) : (t.trial p).Only (Act.In (p.Near 7)) := by
  refine .bind_of (scatter_near p) fun q hq => .ite (.done false) ?_
  simp [fits, hq]

theorem near_build (t : TallPlant) (p : Pos) : (t.build p).Only (Act.In (p.Near 7)) :=
  (t.near_trial p).anyRepeated 64

end TallPlant

namespace Vines

theorem near_heldBits (p : Pos) : (heldBits p).Only (Act.In (p.Near 1)) :=
  .bind (.filterM fun f _ => by simp [isHeld, p.near_offset f]) fun _ => .done _

theorem near_trial (p : Pos) : (trial p).Only (Act.In (p.Near 8)) := by
  refine .bind_of (scatter_near p) fun q hq => .ite ?_ (.done ())
  have hq' : p.Near 8 q := hq.mono (by decide)
  refine .bind (by simpa using hq') fun air => .ite ?_ (.done ())
  refine .bind ((near_heldBits q).near_trans hq) fun held => ?_
  simp [hq']

theorem near_build (p : Pos) : (build p).Only (Act.In (p.Near 8)) :=
  .bind ((near_trial p).repeated 64) fun _ => .done true

end Vines

/-! ## Other features -/

theorem Spring.near_build (fluid : BlockId) (p : Pos) :
    (build fluid p).Only (Act.In (p.Near 1)) := by
  have hsides : ((Face.horizontal.map (p.offset · 1)).mapM Build.look).Only (Act.In (p.Near 1)) :=
    .mapM <| by simp [p.near_offset]
  refine .bind (by simp) fun _ => .ite (.bind (by simp) fun _ => .ite ?_ (.done false)) (.done false)
  refine .bind (by simp) fun _ => .ite (.bind hsides fun sides => .ite ?_ (.done false)) (.done false)
  simp

namespace HugeMushroom

variable {C : Pos → Prop}

theorem near_isClear (p : Pos) (height : Int32) :
    (isClear p height).Only (Act.In (p.Near 3)) := by
  refine Build.Only.allM_span fun y _ => Build.Only.allSquare fun x hx z hz => ?_
  have hq : p.Near 3 ⟨x, y, z⟩ :=
    Pos.near_of_mem_square (k := 3) y (by split <;> decide) (by split <;> decide) hx hz
  simpa using hq

theorem capRadius_range (s : Species) (top y : Int32) :
    0 ≤ capRadius s top y ∧ capRadius s top y ≤ 3 := by
  cases s with
  | brown => exact show (0 : Int32) ≤ 3 ∧ (3 : Int32) ≤ 3 by decide
  | red =>
      rw [capRadius]
      split <;> decide

theorem near_capLayer (s : Species) (p : Pos) (top y : Int32) :
    (capLayer s p top y).Only (Act.In (p.Near 3)) := by
  obtain ⟨hlow, hhigh⟩ := capRadius_range s top y
  simp only [capLayer, Build.only_forSquare]
  intro x hx z hz
  have hq : p.Near 3 ⟨x, y, z⟩ := Pos.near_of_mem_square y hlow hhigh hx hz
  split
  · simpa using hq
  · exact .done ()

theorem near_build (k : MushroomKind) (p : Pos) : (build k p).Only (Act.In (p.Near 3)) := by
  have hspecies : (species k).Only (Act.In (p.Near 3)) := by
    cases k <;> simp [species]
  simp [build, hspecies, height, near_isClear, near_capLayer]

end HugeMushroom

namespace Dungeon

/-- The walls of a room are at most four columns from its origin. -/
structure Room.Small (r : Room) : Prop where
  radiusX : 2 ≤ r.radiusX ∧ r.radiusX ≤ 3
  radiusZ : 2 ≤ r.radiusZ ∧ r.radiusZ ≤ 3

theorem gap_le_of_mem_side {c radius x : Int32} (hradius : 2 ≤ radius ∧ radius ≤ 3)
    (hx : x ∈ (Span.closed (c - (radius + 1)) (c + (radius + 1))).toList) : gap c x ≤ 4 := by
  have hx := Span.sub_range_of_mem_around (by lia) hx
  exact gap_le (k := 4) (by lia) (by lia)

theorem Room.Small.near {r : Room} (hr : r.Small) {x y z : Int32} (hx : x ∈ r.spanX.toList)
    (hz : z ∈ r.spanZ.toList) : r.origin.Near 4 ⟨x, y, z⟩ :=
  ⟨gap_le_of_mem_side hr.radiusX hx, gap_le_of_mem_side hr.radiusZ hz⟩

theorem near_of_mem_scanOrder {r : Room} (hr : r.Small) : ∀ q ∈ scanOrder r, r.origin.Near 4 q := by
  intro q hq
  simp only [scanOrder, List.mem_flatMap, List.mem_map] at hq
  obtain ⟨x, hx, y, -, z, hz, rfl⟩ := hq
  exact hr.near hx hz

theorem near_of_mem_carveOrder {r : Room} (hr : r.Small) :
    ∀ q ∈ carveOrder r, r.origin.Near 4 q := by
  intro q hq
  simp only [carveOrder, List.mem_flatMap, List.mem_map] at hq
  obtain ⟨x, hx, y, -, z, hz, rfl⟩ := hq
  exact hr.near hx hz

theorem near_scanAll {p : Pos} (r : Room) {ps : List Pos} (hps : ∀ q ∈ ps, p.Near 4 q) (n : Nat) :
    (scanAll r ps n).Only (Act.In (p.Near 4)) := by
  induction ps generalizing n with
  | nil => exact .done _
  | cons q ps ih =>
      rw [List.forall_mem_cons] at hps
      have hcell : (scanCell r q n).Only (Act.In (p.Near 4)) := by simp [scanCell, hps.1]
      refine .bind hcell fun found => ?_
      cases found with
      | none => exact .done none
      | some n => exact ih hps.2 n

theorem near_carve {p q : Pos} (r : Room) (hq : p.Near 4 q) :
    (carve r q).Only (Act.In (p.Near 4)) := by
  simp [carve, masonry, hq]

theorem near_build (p : Pos) : (build p).Only (Act.In (p.Near 4)) := by
  refine .draw (by decide) fun u hu => .draw (by decide) fun v hv => ?_
  have hroom : (⟨p, u + 2, v + 2⟩ : Room).Small := ⟨by lia, by lia⟩
  refine .bind (near_scanAll _ (near_of_mem_scanOrder hroom) 0) fun found => ?_
  cases found with
  | none => exact .done false
  | some n =>
      have hcarve : ∀ q ∈ carveOrder ⟨p, u + 2, v + 2⟩,
          (carve ⟨p, u + 2, v + 2⟩ q).Only (Act.In (p.Near 4)) :=
        fun q hq => near_carve _ (near_of_mem_carveOrder hroom q hq)
      refine .ite (.bind (by simp) fun _ => .done false) (.bind ?_ fun _ => ?_)
      · rw [List.forM_eq_forM, Build.only_forM]
        exact hcarve
      · simp

end Dungeon

namespace LakeBasin

variable {p corner : Pos}

/-- The box of a lake reaches eight columns from its origin to the low side. -/
theorem near_cell (hx : corner.x = p.x - 8) (hz : corner.z = p.z - 8) {x z : Nat} (y : Nat)
    (hx' : x < 16) (hz' : z < 16) : p.Near 8 (cell corner x y z) := by
  have hoffset : ∀ n < 16, (Int32.ofNat n - 8).toInt.natAbs ≤ 8 := by decide
  have hcancel (a n : Int32) : a - 8 + n = a + (n - 8) := by grind
  rw [Pos.Near, cell, Pos.shift, hx, hz, hcancel, hcancel, gap_add, gap_add]
  exact ⟨hoffset x hx', hoffset z hz'⟩

theorem lt_of_mem_boxCells {low count : Nat} {c : Nat × Nat × Nat} (hc : c ∈ boxCells low count) :
    c.1 < 16 ∧ c.2.2 < 16 := by
  simp only [boxCells, List.mem_flatMap, List.mem_map, List.mem_range] at hc
  obtain ⟨x, hx, z, hz, y, -, rfl⟩ := hc
  exact ⟨hx, hz⟩

theorem near_opening (hx : corner.x = p.x - 8) (hz : corner.z = p.z - 8) (b : LakeBasin)
    {cs : List (Nat × Nat × Nat)} (hcs : ∀ c ∈ cs, c.1 < 16 ∧ c.2.2 < 16) :
    (opening corner b cs).Only (Act.In (p.Near 8)) := by
  induction cs with
  | nil => exact .done none
  | cons c cs ih =>
      obtain ⟨x, y, z⟩ := c
      rw [List.forall_mem_cons] at hcs
      have hcell : p.Near 8 (cell corner x y z) := near_cell hx hz y hcs.1.1 hcs.1.2
      simp [opening, hcell, ih hcs.2]

theorem near_fill (hx : corner.x = p.x - 8) (hz : corner.z = p.z - 8) (fluid : BlockId)
    (b : LakeBasin) : (fill fluid corner b).Only (Act.In (p.Near 8)) := by
  rw [fill, List.forM_eq_forM, Build.only_forM]
  rintro ⟨x, y, z⟩ hc
  obtain ⟨hx', hz'⟩ := lt_of_mem_boxCells hc
  have hcell : p.Near 8 (cell corner x y z) := near_cell hx hz y hx' hz'
  simp [dig, hcell]

theorem near_draw (p : Pos) : draw.Only (Act.In (p.Near 8)) := by
  have hbowls (n : Nat) : (bowls n).Only (Act.In (p.Near 8)) := by
    induction n with
    | zero => exact .done []
    | succ n ih => simp [bowls, unitVec, Build.double, ih]
  exact .bind (by simp) fun more => .bind (hbowls _) fun bs => .done _

theorem near_ground (p : Pos) :
    (ground p).Only (Act.In (p.Near 8)) ∧
      ∀ q, (ground p).Returns q → q.x = p.x - 8 ∧ q.z = p.z - 8 := by
  obtain ⟨honly, hreturns⟩ := Build.near_sink (p - ⟨8, 0, 8⟩) ((p - ⟨8, 0, 8⟩).y.toInt - 5).toNat
  have hstart : p.Near 8 (p - ⟨8, 0, 8⟩) := by
    simp [Pos.Near]
  exact ⟨honly.near_trans hstart, hreturns⟩

theorem near_build (fluid : BlockId) (p : Pos) : (build fluid p).Only (Act.In (p.Near 8)) := by
  refine .bind_of (near_ground p) fun bottom hbottom => .ite (.done false) ?_
  have hx : (bottom.down 4).x = p.x - 8 := hbottom.1
  have hz : (bottom.down 4).z = p.z - 8 := hbottom.2
  refine .bind (near_draw p) fun b => ?_
  refine .bind (near_opening hx hz b fun c hc => lt_of_mem_boxCells hc) fun fluidAt => ?_
  cases fluidAt with
  | none => exact .bind (near_fill hx hz fluid b) fun _ => .done true
  | some q => exact .bind (by simp) fun _ => .done false

end LakeBasin

end VoxelFeatures
