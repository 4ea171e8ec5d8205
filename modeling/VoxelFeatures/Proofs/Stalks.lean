import VoxelFeatures.Proofs.Scattered

/-!
# Stalks over obstacles

A stalk grows through the cells above its soil, as far as they are air, and goes on above
a block that is in its way. So a cactus can stand on stone, if the stone hung over sand.
It never stands on air, though: `Rooted` says that a column without air leads from a cell
down to a block that stalks grow on. Each step of the growing adds a cell to such a column
or finds a block there, and blocks stay.

What floats is then told by the world as it was at first. The block below a grown cell is
one that stalks grow on exactly if there was such a block before, or air.
-/

namespace VoxelFeatures

/-- A column of `n` cells without air leads from a block of the list up to the cell. -/
inductive Rooted (base : List BlockId) (j : Journal) : Nat → Pos → Prop
  | base {q : Pos} (h : j.idAt q ∈ base) : Rooted base j 0 q
  | up {n : Nat} {q : Pos} (below : Rooted base j n q) (h : j.idAt (q.up 1) ≠ .air) :
      Rooted base j (n + 1) (q.up 1)

namespace Rooted

variable {base : List BlockId} {n : Nat} {q : Pos}

theorem idAt_ne {j : Journal} (hair : .air ∉ base) (h : Rooted base j n q) :
    j.idAt q ≠ .air := by
  cases h with
  | base h => exact fun hq => hair (hq ▸ h)
  | up below h => exact h

/-- A column stays as it is while air is filled. -/
theorem fills {B : BlockId → Prop} {s t : Site} (hair : .air ∉ base) (hst : s.Fills B t)
    (h : Rooted base s.journal n q) : Rooted base t.journal n q := by
  induction h with
  | base h => exact .base (hst.idAt_mem hair h)
  | up below h ih => exact .up ih (by rwa [hst.idAt_of_ne h])

end Rooted

namespace Stalk

open Build

variable {plant : BlockId} {base : List BlockId} {s : Site}

/-- The write is of a plant, over a column of at most three cells. -/
def Grown (plant : BlockId) (base : List BlockId) (w : Write) (j : Journal) : Prop :=
  w.block = .plain plant ∧ ∃ n ≤ 3, Rooted base j n (w.pos.down 1)

theorem stable_grown (hair : .air ∉ base) {B : BlockId → Prop} :
    Site.Stable B (Grown plant base) :=
  fun _ _ _ hst ⟨hw, n, hn, hroot⟩ => ⟨hw, n, hn, hroot.fills hair hst⟩

/-- What growing does to one cell. -/
def growCell (plant : BlockId) (q : Pos) : Build Unit := do
  if ← isAir q then place q (.plain plant)

theorem grow_eq (plant : BlockId) (height : Int32) (p : Pos) :
    grow plant height p =
      forM (Span.listFrom 1 0 (Span.halfOpen 0 height).size) fun dy =>
        growCell plant (p.up dy) := by
  rw [grow, Span.forM_eq, List.forM_eq_forM]
  rfl

theorem run_growCell (plant : BlockId) (q : Pos) (s : Site) :
    ((growCell plant q).run s).2 =
      if s.journal.idAt q = .air then s.place q (.plain plant) false else s := by
  by_cases hq : s.journal.idAt q = .air
  · simp [growCell, isAir, run_bind, hq]
  · simp [growCell, isAir, run_bind, hq]

/-- Above a column a cell is planted, and then ends the column. -/
theorem plants_growCell (hplant : plant ≠ .air) (hair : .air ∉ base)
    (hs : s.journal.world.Packed) {n : Nat} (hn : n ≤ 3) {q : Pos}
    (hroot : Rooted base s.journal n q) :
    let t := ((growCell plant (q.up 1)).run s).2
    s.Plants (· = plant) (Grown plant base) t ∧
      ((q.up 1).inHeight → Rooted base t.journal (n + 1) (q.up 1)) := by
  rw [run_growCell]
  split
  · rename_i hempty
    have hfills : s.Fills (· = plant) (s.place (q.up 1) (.plain plant) false) :=
      fills (m := place (q.up 1) (.plain plant)) hs
        (s.adds_place (q.up 1) (.plain plant) false fun _ => ⟨hempty, rfl⟩)
    have hafter := hroot.fills hair hfills
    refine ⟨⟨hfills, s.adds_place _ _ false fun _ => ⟨hempty, rfl, n, hn, ?_⟩⟩, fun hin => ?_⟩
    · rwa [Pos.down_up]
    · exact .up hafter (by rwa [s.idAt_place_self hin])
  · rename_i hsolid
    exact ⟨.nil hs rfl, fun _ => .up hroot hsolid⟩

/-- Nothing is planted above the world. -/
theorem plants_growCell_of_high (plant : BlockId) (K : Write → Journal → Prop)
    (hs : s.journal.world.Packed) {q : Pos} (hq : q.inHeight = false) :
    s.Plants (· = plant) K ((growCell plant q).run s).2 := by
  rw [run_growCell]
  split
  · rw [s.place_of_not_inHeight hq]
    exact .nil hs rfl
  · exact .nil hs rfl

/-- The cells above a column are planted one after the other, up to the top of the world. -/
theorem plants_growCells (hplant : plant ≠ .air) (hair : .air ∉ base) {p q : Pos} {i : Int32}
    {n m : Nat} (hi : p.up i = q.up 1) (hnm : n + m ≤ 4)
    (hq : -1 ≤ q.y.toInt ∧ q.y.toInt + m < 2147483648) (hs : s.journal.world.Packed)
    (hroot : Rooted base s.journal n q ∨ 256 ≤ q.y.toInt + 1) :
    s.Plants (· = plant) (Grown plant base)
      ((forM (Span.listFrom 1 i m) fun dy => growCell plant (p.up dy)).run s).2 := by
  have hstable : Site.Stable (· = plant) (Grown plant base) := stable_grown hair
  induction m generalizing i n q s with
  | zero => exact .nil hs rfl
  | succ m ih =>
      have hup : (q.up 1).y.toInt = q.y.toInt + 1 := toInt_add_one (by omega)
      have hnext : p.up (i + 1) = (q.up 1).up 1 := by rw [← hi, Pos.up_up]
      rw [Span.listFrom, List.forM_cons, run_bind, hi]
      cases hin : (q.up 1).inHeight with
      | true =>
          rw [Pos.inHeight_iff_toInt, hup] at hin
          have hbelow : Rooted base s.journal n q := hroot.resolve_right (by omega)
          obtain ⟨hplants, hgrown⟩ := plants_growCell hplant hair hs (by omega) hbelow
          refine hplants.trans hstable (ih hnext (n := n + 1) (by omega) (by omega)
            hplants.fills.packed ?_)
          exact .inl (hgrown (by rw [Pos.inHeight_iff_toInt, hup]; omega))
      | false =>
          have hhigh : ¬(0 ≤ q.y.toInt + 1 ∧ q.y.toInt + 1 < 256) := by
            rw [← hup, ← Pos.inHeight_iff_toInt, hin]
            exact Bool.false_ne_true
          have hplants := plants_growCell_of_high plant (Grown plant base) hs hin
          refine hplants.trans hstable (ih hnext (n := n + 1) (by omega) (by omega)
            hplants.fills.packed (.inr (by omega)))

/-- A stalk on soil is of plants over a column. -/
theorem plants_grow (hplant : plant ≠ .air) (hair : .air ∉ base) {p : Pos} (hp : p.inHeight)
    {height : Int32} (hheight : height ≤ 4) (hs : s.journal.world.Packed)
    (hsoil : s.journal.idAt (p.down 1) ∈ base) :
    s.Plants (· = plant) (Grown plant base) ((grow plant height p).run s).2 := by
  have hfour : (4 : Int32).toInt = 4 := by decide
  have hzero : (0 : Int32).toInt = 0 := Int32.toInt_zero
  have hfirst : p.up 0 = (p.down 1).up 1 := by rw [Pos.up_down, Pos.up, Int32.add_zero]
  rw [Pos.inHeight_iff_toInt] at hp
  have hdown : (p.down 1).y.toInt = p.y.toInt - 1 := toInt_sub_one_of_lt (by omega)
  rw [Int32.le_iff_toInt_le, hfour] at hheight
  rw [grow_eq]
  refine plants_growCells hplant hair hfirst (n := 0) ?_ ?_ hs (.inl (.base hsoil))
  · simp only [Span.halfOpen]
    omega
  · simp only [Span.halfOpen]
    omega

theorem height_le {least height : Int32} (hleast : 0 ≤ least ∧ least ≤ 2)
    (h : (Stalk.height least).Returns height) : height ≤ 4 := by
  simp only [Stalk.height, returns_bind, returns_bounded, Draw.Allows, pure_eq, returns_done] at h
  obtain ⟨bound, ⟨hbound, -⟩, more, ⟨hmore, -⟩, rfl⟩ := h
  have hbound := hbound (by decide)
  have hmore := hmore (by lia)
  lia

/-! ## Cacti and canes -/

/-- A draw of the height, and a stalk of it. -/
theorem plants_stalk (hplant : plant ≠ .air) (hair : .air ∉ base) {least : Int32}
    (hleast : 0 ≤ least ∧ least ≤ 2) {p : Pos} (hp : p.inHeight) (hs : s.journal.world.Packed)
    (hsoil : s.journal.idAt (p.down 1) ∈ base) :
    s.Plants (· = plant) (Grown plant base)
      ((height least >>= fun h => grow plant h p).run s).2 := by
  have hjournal : ((height least).run s).2.journal = s.journal :=
    (inspects_height least).journal_run s
  have hdrawn := height_le hleast (returns_run (height least) s)
  rw [run_bind]
  refine Site.Plants.trans (stable_grown hair) (.nil hs hjournal) ?_
  rw [← hjournal] at hs hsoil
  exact plants_grow hplant hair hp hdrawn hs hsoil

theorem plants_cactus (p : Pos) :
    (cactus p).Plants (· = .cactus) (Grown .cactus [.sand, .cactus]) := by
  have hair : BlockId.air ∉ [BlockId.sand, .cactus] := by decide
  have hstable : Site.Stable (· = .cactus) (Grown .cactus [.sand, .cactus]) := stable_grown hair
  refine (Plants.repeated hstable ?_ 10).bind hstable fun _ => plants_done true
  refine (plants_of_inspects (inspects_scatter p)).bind hstable fun q => ?_
  split
  · rename_i hq
    intro s hs
    rw [run_bind, run_isPlantable]
    split
    · rename_i hfound
      simp only [Bool.and_eq_true, decide_eq_true_eq, cactusSoils,
        BlockSet.contains_ofList] at hfound
      exact plants_stalk (by decide) hair (by decide) hq hs hfound.2
    · exact .nil hs rfl
  · exact plants_done ()

theorem plants_sugarCanes (p : Pos) :
    (sugarCanes p).Plants (· = .sugarCanes)
      (Grown .sugarCanes [.grass, .dirt, .sand, .sugarCanes]) := by
  have hair : BlockId.air ∉ [BlockId.grass, .dirt, .sand, .sugarCanes] := by decide
  have hstable : Site.Stable (· = .sugarCanes)
    (Grown .sugarCanes [.grass, .dirt, .sand, .sugarCanes]) := stable_grown hair
  refine (Plants.repeated hstable ?_ 20).bind hstable fun _ => plants_done true
  refine (plants_of_inspects (by simp [jitter])).bind hstable fun dx => ?_
  refine (plants_of_inspects (by simp [jitter])).bind hstable fun dz => ?_
  dsimp only
  split
  · rename_i hq
    intro s hs
    rw [run_bind, run_isPlantable]
    split
    · rename_i hfound
      simp only [Bool.and_eq_true, decide_eq_true_eq, caneSoils,
        BlockSet.contains_ofList] at hfound
      have hsoil := List.mem_append_left [BlockId.sugarCanes] hfound.2
      rw [run_bind]
      have hjournal := (inspects_hasWaterBeside ((p + ⟨dx, 0, dz⟩).down 1)).journal_run s
      refine Site.Plants.trans hstable (.nil hs hjournal) ?_
      rw [← hjournal] at hs hsoil
      split
      · exact plants_stalk (by decide) hair (by decide) hq hs hsoil
      · exact .nil hs rfl
    · exact .nil hs rfl
  · exact plants_done ()

end Stalk

namespace Feature

/-- The plant of a feature that grows in stalks, and the blocks that its stalks grow on,
the plant itself included. -/
def stalk? : Feature → Option (BlockId × List BlockId)
  | cactus => some (.cactus, [.sand, .cactus])
  | sugarCanes => some (.sugarCanes, [.grass, .dirt, .sand, .sugarCanes])
  | tree _ | vein _ | lake _ | spring _ | dungeon | mushroom _ | icePath _ | iceSpike | bush _
  | deadBush | tallGrass _ | pumpkin | vines | waterLily | tallPlant _ | patch _ | clay _ | sand _
  | boulder _ => none

theorem plants_stalks {f : Feature} {plant : BlockId} {base : List BlockId}
    (h : f.stalk? = some (plant, base)) (p : Pos) :
    BlockId.air ∉ base ∧ plant ∈ base ∧
      (f.build p).Plants (· = plant) (Stalk.Grown plant base) := by
  cases f with
  | cactus =>
      cases h
      exact ⟨by decide, by decide, Stalk.plants_cactus p⟩
  | sugarCanes =>
      cases h
      exact ⟨by decide, by decide, Stalk.plants_sugarCanes p⟩
  | _ => cases h

/-- Where stalks float. Only air was written to, and below each grown cell a column without
air leads down to a block that the plant grows on. Right below the cell is such a block
unless the world held some other block there at first. -/
theorem stalks_float_above_obstacles_only {f : Feature} {plant : BlockId} {base : List BlockId}
    (h : f.stalk? = some (plant, base)) (p : Pos) {s : Site} (hs : s.journal.world.Made) :
    let t := ((f.build p).run s).2
    (∀ q, s.journal.idAt q ≠ .air → t.journal.get q = s.journal.get q) ∧
      s.Adds (fun w => s.journal.idAt w.pos = .air ∧ Stalk.Grown plant base w t.journal ∧
        (t.journal.idAt (w.pos.down 1) ∈ base ↔
          s.journal.idAt (w.pos.down 1) = .air ∨ s.journal.idAt (w.pos.down 1) ∈ base)) t := by
  intro t
  obtain ⟨hair, hplant, hplants⟩ := plants_stalks h p
  obtain ⟨hfills, hadds⟩ := hplants s hs.packed
  refine ⟨hfills.kept, hadds.mono fun w ⟨hempty, hgrown⟩ => ⟨hempty, hgrown, ?_⟩⟩
  obtain ⟨-, n, -, hroot⟩ := hgrown
  have hsolid : t.journal.idAt (w.pos.down 1) ≠ .air := hroot.idAt_ne hair
  by_cases hbelow : s.journal.idAt (w.pos.down 1) = .air
  · have hnew : t.journal.idAt (w.pos.down 1) = plant :=
      (hfills.filled (w.pos.down 1)).resolve_left fun hsame => hsolid (hsame.trans hbelow)
    exact iff_of_true (hnew ▸ hplant) (.inl hbelow)
  · rw [hfills.idAt_of_ne hbelow, or_iff_right hbelow]

/-- A cactus on sand, which goes on above the stone that hangs over the sand. -/
theorem cactus_goes_on_above_stone :
    let w := World.ofLayers 0 [(.plain .sand, 1), (.plain .air, 1), (.plain .stone, 1)]
    let s : Site := ⟨.ofWorld w, .ofSeed 16, #[]⟩
    let t := ((build .cactus ⟨0, 1, 0⟩).run s).2
    let base : List BlockId := [.sand, .cactus]
    stalk? .cactus = some (.cactus, base) ∧ s.journal.world.Made ∧
      s.Adds (fun w => s.journal.idAt w.pos = .air ∧ Stalk.Grown .cactus base w t.journal ∧
        (t.journal.idAt (w.pos.down 1) ∈ base ↔
          s.journal.idAt (w.pos.down 1) = .air ∨ s.journal.idAt (w.pos.down 1) ∈ base)) t ∧
      t.journal.get ⟨-3, 3, -5⟩ = .plain .cactus ∧ t.journal.get ⟨-3, 2, -5⟩ = .plain .stone := by
  intro w s t base
  have hmade : s.journal.world.Made := ⟨0, _, [], rfl⟩
  exact ⟨rfl, hmade, (stalks_float_above_obstacles_only (f := .cactus) rfl ⟨0, 1, 0⟩ hmade).2,
    by decide +kernel⟩

/-- So stalks do float: that cactus has stone below its upper cell. -/
theorem cactus_floats_above_stone :
    ¬∀ (f : Feature) (plant : BlockId) (base : List BlockId) (p : Pos) (s : Site),
      f.stalk? = some (plant, base) → s.journal.world.Made →
      s.Adds (fun w => ((f.build p).run s).2.journal.idAt (w.pos.down 1) ∈ base)
        ((f.build p).run s).2 := by
  intro h
  let w := World.ofLayers 0 [(.plain .sand, 1), (.plain .air, 1), (.plain .stone, 1)]
  let s : Site := ⟨.ofWorld w, .ofSeed 16, #[]⟩
  obtain ⟨ws, hadded, hws⟩ := h .cactus _ _ ⟨0, 1, 0⟩ s rfl ⟨0, _, [], rfl⟩
  have hupper : (⟨⟨-3, 3, -5⟩, .plain .cactus, false, .plain .air⟩ : Write) ∈
      ((build .cactus ⟨0, 1, 0⟩).run s).2.journal.writes.toList := by
    decide +kernel
  rw [hadded] at hupper
  exact absurd (hws _ hupper) (by decide +kernel)

end Feature

end VoxelFeatures
