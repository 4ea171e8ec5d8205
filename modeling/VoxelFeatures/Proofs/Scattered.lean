import VoxelFeatures.Feature.Basic
import VoxelFeatures.Proofs.LegalWrites
import VoxelFeatures.Proofs.Overgrowth
import VoxelFeatures.Proofs.Retention

/-!
# Scattered plants stay supported

Each trial of a scatter placer runs in the world that the trials before it have left.
It looks at that world and plants in air alone, so no trial takes away what an earlier
plant stands on, nor puts something beside a vine that it could have been hung on.
`Site.Fills` says that a run has filled air and nothing else. What holds a plant is
`Stable` if it goes on holding it while air is filled. So what every trial finds right
after its own placement is still so in the end.
-/

namespace VoxelFeatures

namespace Site

variable {B : BlockId → Prop} {K : Write → Journal → Prop} {s t u : Site}

/-- From `s` to `t` only air was filled, and only with ids of `B`. -/
structure Fills (B : BlockId → Prop) (s t : Site) : Prop where
  packed : t.journal.world.Packed
  kept : ∀ q, s.journal.idAt q ≠ .air → t.journal.get q = s.journal.get q
  filled : ∀ q, t.journal.idAt q = s.journal.idAt q ∨ B (t.journal.idAt q)

namespace Fills

theorem idAt_of_ne (h : s.Fills B t) {q : Pos} (hq : s.journal.idAt q ≠ .air) :
    t.journal.idAt q = s.journal.idAt q := by
  rw [t.journal.idAt_eq, s.journal.idAt_eq, h.kept q hq]

/-- What is air in the end was air at first. -/
theorem idAt_eq_air (h : s.Fills B t) {q : Pos} (hq : t.journal.idAt q = .air) :
    s.journal.idAt q = .air := by
  by_contra hsolid
  exact hsolid ((h.idAt_of_ne hsolid).symm.trans hq)

theorem nil (hs : s.journal.world.Packed) (h : t.journal = s.journal) : s.Fills B t :=
  ⟨h ▸ hs, fun _ _ => by rw [h], fun _ => .inl (by rw [h])⟩

theorem trans (h : s.Fills B t) (h' : t.Fills B u) : s.Fills B u := by
  refine ⟨h'.packed, fun q hq => ?_, fun q => ?_⟩
  · have hsolid : t.journal.idAt q ≠ .air := by rwa [h.idAt_of_ne hq]
    rw [h'.kept q hsolid, h.kept q hq]
  · rcases h'.filled q with hsame | hnew
    · rw [hsame]
      exact h.filled q
    · exact .inr hnew

/-- A block other than air is there for good. -/
theorem get_eq (h : s.Fills B t) {q : Pos} {b : Block} (hb : b.id ≠ .air)
    (hq : s.journal.get q = b) : t.journal.get q = b := by
  rw [h.kept q (by rwa [s.journal.idAt_eq, hq]), hq]

/-- And so is an id of a list without air. -/
theorem idAt_mem (h : s.Fills B t) {q : Pos} {ids : List BlockId} (hair : .air ∉ ids)
    (hq : s.journal.idAt q ∈ ids) : t.journal.idAt q ∈ ids := by
  rwa [h.idAt_of_ne fun hempty => hair (hempty ▸ hq)]

end Fills

/-- What `K` says of a write goes on to hold while air is filled with ids of `B`. -/
def Stable (B : BlockId → Prop) (K : Write → Journal → Prop) : Prop :=
  ∀ (w : Write) (s t : Site), s.Fills B t → K w s.journal → K w t.journal

/-- From `s` to `t` only air was written to, and in the end `K` holds of every write. -/
structure Plants (B : BlockId → Prop) (K : Write → Journal → Prop) (s t : Site) : Prop where
  fills : s.Fills B t
  adds : s.Adds (fun w => s.journal.idAt w.pos = .air ∧ K w t.journal) t

namespace Plants

theorem nil (hs : s.journal.world.Packed) (h : t.journal = s.journal) : s.Plants B K t :=
  ⟨.nil hs h, .nil h⟩

theorem trans (hK : Stable B K) (h : s.Plants B K t) (h' : t.Plants B K u) :
    s.Plants B K u := by
  refine ⟨h.fills.trans h'.fills, Adds.trans (t := t) ?_ ?_⟩
  · exact h.adds.mono fun w hw => ⟨hw.1, hK w t u h'.fills hw.2⟩
  · exact h'.adds.mono fun w hw => ⟨h.fills.idAt_eq_air hw.1, hw.2⟩

end Plants

end Site

namespace Build

variable {α : Type} {B : BlockId → Prop} {K : Write → Journal → Prop} {s : Site}

/-- A run that writes to air alone fills air alone. -/
theorem fills {m : Build α} (hs : s.journal.world.Packed)
    (h : s.Adds (fun w => s.journal.idAt w.pos = .air ∧ B w.block.id) (m.run s).2) :
    s.Fills B (m.run s).2 := by
  obtain ⟨ws, hgrows, hws⟩ := grows_of_adds h hs
  refine ⟨hgrows.packed, fun q hq => hgrows.kept q hq fun w hw hwq => ?_, fun q => ?_⟩
  · exact absurd (hwq ▸ (hws w hw).1) hq
  · exact (hgrows.idAt q).imp_right fun ⟨w, hw, _, hid⟩ => hid ▸ (hws w hw).2

/-- From every site the program plants in this way. -/
def Plants (B : BlockId → Prop) (K : Write → Journal → Prop) (m : Build α) : Prop :=
  ∀ s : Site, s.journal.world.Packed → s.Plants B K (m.run s).2

theorem plants_done (a : α) : (done a).Plants B K := fun _ hs => .nil hs rfl

theorem plants_of_inspects {m : Build α} (hm : m.Only Act.Inspects) : m.Plants B K :=
  fun s hs => .nil hs (hm.journal_run s)

theorem Plants.bind {β : Type} (hK : Site.Stable B K) {m : Build α} (hm : m.Plants B K)
    {f : α → Build β} (hf : ∀ a, (f a).Plants B K) : (m >>= f).Plants B K := by
  intro s hs
  have hfirst := hm s hs
  rw [run_bind]
  exact hfirst.trans hK (hf _ _ hfirst.fills.packed)

theorem Plants.ite {c : Prop} [Decidable c] {m n : Build α} (hm : m.Plants B K)
    (hn : n.Plants B K) : (if c then m else n).Plants B K := by
  split
  · exact hm
  · exact hn

theorem Plants.repeated (hK : Site.Stable B K) {m : Build Unit} (hm : m.Plants B K) (n : Nat) :
    (repeated m n).Plants B K := by
  induction n with
  | zero => exact plants_done ()
  | succ n ih => exact hm.bind hK fun _ => ih

theorem Plants.anyRepeated (hK : Site.Stable B K) {m : Build Bool} (hm : m.Plants B K)
    (n : Nat) : (anyRepeated m n).Plants B K := by
  induction n with
  | zero => exact plants_done false
  | succ n ih => exact hm.bind hK fun first => ih.bind hK fun rest => plants_done _

end Build

open Build

/-! ## Plants of one cell -/

/-- Right below the write is a block of the list. -/
def StandsOn (soils : List BlockId) (w : Write) (j : Journal) : Prop :=
  j.idAt (w.pos.down 1) ∈ soils

theorem stable_standsOn {soils : List BlockId} (hair : .air ∉ soils) :
    Site.Stable (fun _ => True) (StandsOn soils) :=
  fun _ _ _ h => h.idAt_mem hair

theorem run_isPlantable (soils : BlockSet) (q : Pos) (s : Site) :
    (isPlantable soils q).run s =
      (decide (s.journal.idAt q = .air) && soils.contains (s.journal.idAt (q.down 1)), s) := by
  by_cases hq : s.journal.idAt q = .air
  · simp [isPlantable, isAir, isIn, run_bind, hq]
  · simp [isPlantable, isAir, run_bind, hq]

theorem plants_plantAround {soils : List BlockId} (hair : .air ∉ soils) {plant : Pos → Build Unit}
    (hplant : ∀ q, (plant q).Adds fun w => w.pos = q) (n : Nat) (p : Pos) :
    (plantAround n (.ofList soils) plant p).Plants (fun _ => True) (StandsOn soils) := by
  have hstable := stable_standsOn hair
  refine (Plants.repeated hstable ?_ n).bind hstable fun _ => plants_done true
  refine (plants_of_inspects (inspects_scatter p)).bind hstable fun q => .ite ?_ (plants_done ())
  intro s hs
  rw [run_bind, run_isPlantable]
  split
  · rename_i hfound
    simp only [Bool.and_eq_true, decide_eq_true_eq, BlockSet.contains_ofList] at hfound
    have hfills : s.Fills (fun _ => True) ((plant q).run s).2 :=
      fills hs ((hplant q s).mono fun w hw => ⟨hw ▸ hfound.1, trivial⟩)
    refine ⟨hfills, (hplant q s).mono fun w hw => ⟨hw ▸ hfound.1, ?_⟩⟩
    rw [StandsOn, hw]
    exact hfills.idAt_mem hair hfound.2
  · exact .nil hs rfl

namespace Patch

theorem adds_placeTurned (id : BlockId) (q : Pos) :
    (do place q ⟨id, ← orientation⟩ : Build Unit).Adds fun w => w.pos = q :=
  (adds_of_inspects inspects_orientation).bind fun _ => adds_place fun _ => rfl

theorem adds_turned (id : BlockId) (q : Pos) :
    (do place q (.plain id); place q ⟨id, ← orientation⟩ : Build Unit).Adds fun w => w.pos = q :=
  (adds_place fun _ => rfl).bind fun _ => adds_placeTurned id q

end Patch

/-! ## Plants of two cells -/

namespace TallPlant

/-- The write is of one half, with the other half where it belongs and a soil below. -/
def IsHalf (t : TallPlant) (w : Write) (j : Journal) : Prop :=
  w.block = t.lower ∧ j.get w.pos = t.lower ∧ j.get (w.pos.up 1) = t.upper ∧
      j.idAt (w.pos.down 1) ∈ [BlockId.grass, .dirt, .farmland] ∨
    w.block = t.upper ∧ j.get w.pos = t.upper ∧ j.get (w.pos.down 1) = t.lower

theorem stable_isHalf (t : TallPlant) : Site.Stable (fun _ => True) t.IsHalf := by
  intro w s u h hhalf
  have hid : BlockId.doublePlant ≠ .air := by decide
  refine hhalf.imp ?_ ?_
  · exact fun ⟨hw, hpos, hup, hsoil⟩ =>
      ⟨hw, h.get_eq hid hpos, h.get_eq hid hup, h.idAt_mem (by decide) hsoil⟩
  · exact fun ⟨hw, hpos, hdown⟩ => ⟨hw, h.get_eq hid hpos, h.get_eq hid hdown⟩

theorem lower_data_lt (t : TallPlant) : t.lower.data < 16 :=
  UInt8.lt_trans t.variant_lt (by decide)

/-- Both halves of an admitted plant are within the height of the world. -/
theorem inHeight_of_trial {q : Pos} (h : ¬(q.y < 0 ∨ 254 ≤ q.y)) :
    q.inHeight ∧ (q.up 1).inHeight := by
  have hzero : (0 : Int32).toInt = 0 := Int32.toInt_zero
  have htop : (254 : Int32).toInt = 254 := by decide
  rw [Int32.lt_iff_toInt_lt, Int32.le_iff_toInt_le, hzero, htop] at h
  have hup : (q.y + 1).toInt = q.y.toInt + 1 := toInt_add_one (by omega)
  rw [Pos.inHeight_iff_toInt, Pos.inHeight_iff_toInt, Pos.up, hup]
  omega

theorem run_fits (q : Pos) (s : Site) :
    (fits q).run s =
      (decide (s.journal.idAt q = .air) && (decide (s.journal.idAt (q.up 1) = .air) &&
        Patch.bushSoils.contains (s.journal.idAt (q.down 1))), s) := by
  by_cases hq : s.journal.idAt q = .air
  · by_cases hup : s.journal.idAt (q.up 1) = .air
    · simp [fits, isAir, isIn, run_bind, hq, hup]
    · simp [fits, isAir, run_bind, hq, hup]
  · simp [fits, isAir, run_bind, hq]

/-- The two placements of a trial that has found room. -/
theorem plants_halves (t : TallPlant) {s : Site} (hs : s.journal.world.Packed) {q : Pos}
    (hq : q.inHeight) (hup : (q.up 1).inHeight) (hair : s.journal.idAt q = .air)
    (hairUp : s.journal.idAt (q.up 1) = .air)
    (hsoil : s.journal.idAt (q.down 1) ∈ [BlockId.grass, .dirt, .farmland]) :
    s.Plants (fun _ => True) t.IsHalf ((s.place q t.lower false).place (q.up 1) t.upper false) := by
  let u := s.place q t.lower false
  let v := u.place (q.up 1) t.upper false
  have hne : q.up 1 ≠ q := fun h => by
    have hy : q.y + 1 = q.y := congrArg Pos.y h
    grind
  have hdown : (q.up 1).down 1 = q := by
    rw [Pos.up, Pos.down, Int32.add_sub_cancel]
  have hlowerFills : s.Fills (fun _ => True) u :=
    fills (m := place q t.lower) hs (s.adds_place q t.lower false fun _ => ⟨hair, trivial⟩)
  have hairBetween : u.journal.idAt (q.up 1) = .air := by
    rw [Site.idAt_place, if_neg fun h => hne h.2, hairUp]
  have hupperFills : u.Fills (fun _ => True) v :=
    fills (m := place (q.up 1) t.upper) hlowerFills.packed
      (u.adds_place (q.up 1) t.upper false fun _ => ⟨hairBetween, trivial⟩)
  have hfills := hlowerFills.trans hupperFills
  have hlower : v.journal.get q = t.lower := by
    refine hupperFills.get_eq (by decide : BlockId.doublePlant ≠ .air) ?_
    rw [Site.get_place_self s hq, Block.stored_of_lt t.lower_data_lt]
  have hupper : v.journal.get (q.up 1) = t.upper := by
    rw [Site.get_place_self u hup, Block.stored_of_lt t.upper_data_lt]
  refine ⟨hfills, Site.Adds.trans (t := u) ?_ ?_⟩
  · refine s.adds_place q t.lower false fun _ => ⟨hair, .inl ⟨rfl, hlower, hupper, ?_⟩⟩
    exact hfills.idAt_mem (by decide) hsoil
  · refine u.adds_place (q.up 1) t.upper false fun _ => ⟨hairUp, .inr ⟨rfl, hupper, ?_⟩⟩
    rwa [hdown]

theorem plants_build (t : TallPlant) (p : Pos) :
    (t.build p).Plants (fun _ => True) t.IsHalf := by
  have hstable := t.stable_isHalf
  refine Plants.anyRepeated hstable ?_ 64
  refine (plants_of_inspects (inspects_scatter p)).bind hstable fun q => ?_
  split
  · exact plants_done false
  · rename_i hrange
    intro s hs
    rw [run_bind, run_fits]
    split
    · rename_i hfound
      simp only [Bool.and_eq_true, decide_eq_true_eq, Patch.bushSoils,
        BlockSet.contains_ofList] at hfound
      obtain ⟨hair, hairUp, hsoil⟩ := hfound
      obtain ⟨hq, hup⟩ := inHeight_of_trial hrange
      exact t.plants_halves hs hq hup hair hairUp hsoil
    · exact .nil hs rfl

end TallPlant

/-! ## Vines -/

namespace Build

variable {ι : Type}

/-- A filter by programs that only look is one by their answers. -/
theorem run_filterM_of_looks {l : List ι} {f : ι → Build Bool} (hf : ∀ i ∈ l, (f i).Only Act.Looks)
    (s : Site) : (l.filterM f).run s = (l.filter fun i => ((f i).run s).1, s) := by
  have haux (kept : List ι) :
      (l.filterAuxM f kept).run s = ((l.filter fun i => ((f i).run s).1).reverse ++ kept, s) := by
    induction l generalizing kept with
    | nil => rfl
    | cons i l ih =>
        rw [List.forall_mem_cons] at hf
        rw [List.filterAuxM, run_bind, hf.1.run_looks, List.filter_cons]
        cases ((f i).run s).1 with
        | false => exact ih hf.2 kept
        | true =>
            simp only [cond_true, ih hf.2, List.reverse_cons, List.append_assoc, if_true]
            rfl
  rw [List.filterM, run_bind, haux]
  simp

end Build

namespace Vines

/-- The horizontal faces of a cell whose neighbours can hold a vine. -/
def holders (j : Journal) (p : Pos) : List Face :=
  Face.horizontal.filter fun f =>
    j.idAt (p.offset f 1) ∉ [BlockId.air, .vine, .tallGrass, .deadBush]

/-- The write is of a vine that hangs on every neighbour that can hold it. -/
def Hangs (w : Write) (j : Journal) : Prop :=
  w.block = ⟨.vine, bits (holders j w.pos)⟩ ∧ j.get w.pos = w.block

theorem run_heldBits (q : Pos) (s : Site) :
    (heldBits q).run s = (bits (holders s.journal q), s) := by
  have hlooks : ∀ f ∈ Face.horizontal, (isHeld q f).Only Act.Looks := fun f _ => by simp [isHeld]
  have hheld (f : Face) : (!unsupported.contains (s.journal.idAt (q.offset f 1))) =
      decide (s.journal.idAt (q.offset f 1) ∉ [BlockId.air, .vine, .tallGrass, .deadBush]) := by
    rw [unsupported, BlockSet.contains_ofList, decide_not]
  rw [heldBits, run_bind, run_filterM_of_looks hlooks]
  exact congrArg (fun fs => (bits fs, s)) (List.filter_congr fun f _ => hheld f)

/-- A vine beside a cell holds another one no more than air does. -/
theorem holders_eq {s t : Site} (h : s.Fills (· = .vine) t) (p : Pos) :
    holders t.journal p = holders s.journal p := by
  refine List.filter_congr fun f _ => decide_eq_decide.2 (not_congr ?_)
  by_cases hair : s.journal.idAt (p.offset f 1) = .air
  · rw [hair]
    rcases h.filled (p.offset f 1) with hsame | hvine
    · rw [hsame, hair]
    · rw [hvine]
      decide
  · rw [h.idAt_of_ne hair]

theorem stable_hangs : Site.Stable (· = .vine) Hangs := by
  intro w s t h ⟨hw, hread⟩
  have hid : w.block.id ≠ .air := by
    rw [hw]
    exact (by decide : BlockId.vine ≠ .air)
  exact ⟨by rw [hw, holders_eq h], h.get_eq hid hread⟩

theorem plants_vine {s : Site} (hs : s.journal.world.Packed) {q : Pos} (hq : q.inHeight)
    (hair : s.journal.idAt q = .air) :
    s.Plants (· = .vine) Hangs (s.place q ⟨.vine, bits (holders s.journal q)⟩ false) := by
  let b : Block := ⟨.vine, bits (holders s.journal q)⟩
  have hfills : s.Fills (· = .vine) (s.place q b false) :=
    fills (m := place q b) hs (s.adds_place q b false fun _ => ⟨hair, rfl⟩)
  refine ⟨hfills, s.adds_place q b false fun _ => ⟨hair, ?_, ?_⟩⟩
  · rw [holders_eq hfills]
  · exact (s.get_place_self hq b false).trans (Block.stored_of_lt (bits_lt _))

theorem plants_build (p : Pos) : (build p).Plants (· = .vine) Hangs := by
  refine (Plants.repeated stable_hangs ?_ 64).bind stable_hangs fun _ => plants_done true
  refine (plants_of_inspects (inspects_scatter p)).bind stable_hangs fun q => ?_
  split
  · rename_i hq
    intro s hs
    rw [run_bind, isAir, run_isBlock]
    split
    · rename_i hair
      rw [run_bind, run_heldBits]
      split
      · exact plants_vine hs hq (of_decide_eq_true hair)
      · exact .nil hs rfl
    · exact .nil hs rfl
  · exact plants_done ()

end Vines

/-! ## All scattered plants -/

namespace Feature

/-- What has to hold of the writes of a scatter placer in the world that it leaves. -/
def support? : Feature → Option (Write → Journal → Prop)
  | bush _ => some (StandsOn [.grass, .dirt, .farmland])
  | deadBush => some (StandsOn [.sand, .dirt, .hardenedClay, .stainedClay])
  | tallGrass _ => some (StandsOn [.grass, .dirt])
  | waterLily => some (StandsOn [.water, .stillWater])
  | pumpkin | patch _ => some (StandsOn [.grass])
  | tallPlant plant => some plant.IsHalf
  | vines => some Vines.Hangs
  | tree _ | vein _ | lake _ | spring _ | dungeon | mushroom _ | icePath _ | iceSpike
  | sugarCanes | cactus | clay _ | sand _ | boulder _ => none

theorem plants_build {f : Feature} {K : Write → Journal → Prop} (h : f.support? = some K)
    (p : Pos) : ∃ B, (f.build p).Plants B K := by
  cases f with
  | bush plant =>
      cases h
      exact ⟨_, plants_plantAround (by decide) (fun _ => adds_place fun _ => rfl) _ p⟩
  | deadBush =>
      cases h
      exact ⟨_, plants_plantAround (by decide) (fun _ => adds_place fun _ => rfl) _ p⟩
  | tallGrass data =>
      cases h
      exact ⟨_, plants_plantAround (by decide) (fun _ => adds_place fun _ => rfl) _ p⟩
  | waterLily =>
      cases h
      exact ⟨_, plants_plantAround (by decide) (fun _ => adds_place fun _ => rfl) _ p⟩
  | pumpkin =>
      cases h
      exact ⟨_, plants_plantAround (by decide) (Patch.adds_placeTurned .pumpkin) _ p⟩
  | patch id =>
      cases h
      exact ⟨_, plants_plantAround (by decide) (Patch.adds_turned id) _ p⟩
  | tallPlant plant =>
      cases h
      exact ⟨_, plant.plants_build p⟩
  | vines =>
      cases h
      exact ⟨_, Vines.plants_build p⟩
  | _ => cases h

/-- What a scatter placer leaves behind. It has written to cells that were air at first
and to no other, so every other block is the same. And every plant is held in the world
as it is in the end, by its soil, its other half or the blocks beside it. -/
theorem scattered_plants_are_supported {f : Feature} {K : Write → Journal → Prop}
    (h : f.support? = some K) (p : Pos) {s : Site} (hs : s.journal.world.Made) :
    let t := ((f.build p).run s).2
    (∀ q, s.journal.idAt q ≠ .air → t.journal.get q = s.journal.get q) ∧
      s.Adds (fun w => s.journal.idAt w.pos = .air ∧ K w t.journal) t := by
  obtain ⟨B, hplants⟩ := plants_build h p
  exact ⟨(hplants s hs.packed).fills.kept, (hplants s hs.packed).adds⟩

/-- A vine in a hole in the rock hangs on all four walls. -/
theorem vine_in_rock_is_supported :
    let w := (World.ofLayers 0 [(.plain .stone, 5)]).edit [.place ⟨3, 2, -1⟩ .air false]
    let s : Site := ⟨.ofWorld w, .ofSeed 3, #[]⟩
    let t := ((build .vines ⟨3, 2, -1⟩).run s).2
    support? .vines = some Vines.Hangs ∧ s.journal.world.Made ∧
      s.Adds (fun w => s.journal.idAt w.pos = .air ∧ Vines.Hangs w t.journal) t ∧
      t.journal.get ⟨3, 2, -1⟩ = ⟨.vine, 15⟩ := by
  intro w s t
  have hmade : s.journal.world.Made := ⟨0, _, _, rfl⟩
  exact ⟨rfl, hmade, (scattered_plants_are_supported (f := .vines) rfl ⟨3, 2, -1⟩ hmade).2,
    by decide +kernel⟩

end Feature

end VoxelFeatures
