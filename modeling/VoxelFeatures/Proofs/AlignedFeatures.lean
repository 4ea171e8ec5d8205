import VoxelFeatures.Proofs.AlignedTrees

/-!
# The stream after a feature

A seed stands for a whole world only if every feature takes as much from the stream
as it would have taken elsewhere. Most features that can be refused do so: wherever
they are built, the stream goes on from the same state. The scatter placers of plants
that draw for nothing but their cells take six draws for each trial, whether they
plant anything or not.

The small trees alone need room for that. A crown that wraps around the end of the
coordinates has no corners to draw for.
-/

namespace VoxelFeatures

theorem Vein.inStep_build (spec : VeinSpec) (p q : Pos) :
    Build.InStep (build spec p) (build spec q) := by
  have hlink (a b : Segment) (i : Int32) : Build.Parallel (link spec a i) (link spec b i) := by
    refine .bind (Build.Only.abreast (m := Build.double) (by simp [Build.double]))
      fun size _ h => ?_
    subst h
    exact Build.parallel_still (by simp [replaceHost]) (by simp [replaceHost])
  refine .bind (Build.Only.abreast (m := Build.single) (by simp)) fun turn _ h => ?_
  subst h
  refine .draw fun start _ => .draw fun stop _ => ?_
  exact .bind (.forM_span fun i _ => hlink _ _ i) fun _ _ _ =>
    Build.inStep_still (.done true) (.done true)

namespace LakeBasin

theorem still_opening (corner : Pos) (b : LakeBasin) (cells : List (Nat × Nat × Nat)) :
    (opening corner b cells).Only Act.Still := by
  induction cells with
  | nil => exact .done none
  | cons c cells ih =>
      obtain ⟨x, y, z⟩ := c
      simp [opening, ih]

theorem blind_draw : draw.Only Act.Blind := by
  have hbowls (n : Nat) : (bowls n).Only Act.Blind := by
    induction n with
    | zero => exact .done _
    | succ n ih => simp [bowls, unitVec, Build.double, ih]
  simp [draw, hbowls]

/-- The basin is drawn once the ground is high enough, and nothing after it. -/
theorem inStep_build (fluid : BlockId) (p q : Pos) :
    Build.InStep (build fluid p) (build fluid q) := by
  refine .bind_still (by simp [ground]) (by simp [ground]) fun bottom bottom' _ _ => ?_
  refine .unless fun _ _ => .bind blind_draw.abreast fun b _ h => ?_
  subst h
  refine .bind_still (still_opening ..) (still_opening ..) fun opened opened' _ _ => ?_
  refine Build.inStep_still ?_ ?_
  · cases opened <;> simp [fill, dig]
  · cases opened' <;> simp [fill, dig]

end LakeBasin

theorem Spring.inStep_build (fluid : BlockId) (p q : Pos) :
    Build.InStep (build fluid p) (build fluid q) := by
  have hstill (p : Pos) : (build fluid p).Only Act.Still := by
    simp [build, Build.Only.mapM]
  exact Build.inStep_still (hstill p) (hstill q)

namespace HugeMushroom

@[simp] theorem still_isClear (p : Pos) (height : Int32) : (isClear p height).Only Act.Still :=
  .allM_span fun y _ => .allSquare fun x _ z _ => by simp

@[simp] theorem still_capLayer (s : Species) (p : Pos) (top y : Int32) :
    (capLayer s p top y).Only Act.Still := by
  simp only [capLayer, Build.only_forSquare]
  intro x _ z _
  cases texture? s top y (x - p.x) (z - p.z) <;> simp

theorem inStep_build (k : MushroomKind) (p q : Pos) : Build.InStep (build k p) (build k q) := by
  have hspecies : (species k).Only Act.Blind := by
    cases k <;> simp [species]
  refine .bind hspecies.abreast fun s _ h => ?_
  subst h
  refine .bind (Build.Only.abreast (m := height) (by simp [height])) fun h _ hheight => ?_
  subst hheight
  refine .unless fun _ _ => .check (by simp) (by simp) (.check (by simp) (by simp) ?_)
  exact Build.inStep_still (by simp) (by simp)

end HugeMushroom

theorem IcePath.inStep_build (i : IcePath) (p q : Pos) :
    Build.InStep (i.build p) (i.build q) := by
  refine .bind_still (by simp [PackedIce.findSnow]) (by simp [PackedIce.findSnow])
    fun snow snow' _ _ => ?_
  cases snow with
  | none => exact Build.inStep_refused_left _
  | some c =>
      cases snow' with
      | none => exact Build.inStep_refused_right _
      | some c' =>
          refine .bind (Build.Only.abreast (m := i.radius) (by simp [radius])) fun r _ h => ?_
          subst h
          exact Build.inStep_still (by simp [disc_eq]) (by simp [disc_eq])

theorem Disc.inStep_lay (bound half : Int32) (block : BlockId) (replaceable : BlockSet)
    (p q : Pos) :
    Build.InStep (lay bound half block replaceable p) (lay bound half block replaceable q) := by
  refine .bind_still (by simp) (by simp) fun water water' _ _ => ?_
  refine .guard fun _ _ => .draw fun r _ => ?_
  exact Build.inStep_still (by simp) (by simp)

namespace Boulder

theorem still_fall (p : Pos) (n : Nat) : (fall p n).Only Act.Still := by
  induction n generalizing p with
  | zero => exact .done _
  | succ n ih => simp [fall, ih]

theorem parallel_sphere (b : Boulder) (p q : Pos) : Build.Parallel (b.sphere p) (b.sphere q) := by
  refine (Build.abreast_bounded 2).bind fun rx _ hx => ?_
  refine (Build.abreast_bounded 2).bind fun ry _ hy => ?_
  refine (Build.abreast_bounded 2).bind fun rz _ hz => ?_
  exact Build.parallel_still (by simp) (by simp)

/-- The spheres come to lie elsewhere, with as many draws. -/
theorem parallel_spheres (b : Boulder) (p q : Pos) (n : Nat) :
    Build.Parallel (b.spheres p n) (b.spheres q n) := by
  have hstep : Build.Abreast Eq sideStep sideStep := Build.Only.abreast (by simp [sideStep])
  induction n generalizing p q with
  | zero => exact Build.abreast_done trivial
  | succ n ih =>
      refine .bind (parallel_sphere b p q) fun _ _ _ => hstep.bind fun dx _ _ => ?_
      exact (Build.abreast_bounded 2).bind fun fallen _ _ => hstep.bind fun dz _ _ => ih _ _

theorem inStep_build (b : Boulder) (p q : Pos) : Build.InStep (b.build p) (b.build q) := by
  refine .bind_still (still_fall ..) (still_fall ..) fun ground ground' _ _ => ?_
  refine .unless fun _ _ => .bind (parallel_spheres b _ _ 3) fun stop stop' _ => ?_
  exact Build.inStep_still (by simp) (by simp)

end Boulder

/-! ## Scatter placers -/

theorem advances_scatter (p : Pos) : (scatter p).Advances 6 := by
  have hjitter {bound : Int32} (hb : 0 < bound) (hpower : bound &&& -bound = bound) :
      (jitter bound).Advances 2 :=
    (Build.advances_bounded hb hpower).bind (l := 1) fun _ =>
      (Build.advances_bounded hb hpower).bind (l := 0) fun _ => Build.Only.advances (.done _)
  refine (hjitter (by decide) (by decide)).bind (l := 4) fun dx => ?_
  refine (hjitter (by decide) (by decide)).bind (l := 2) fun dy => ?_
  exact (hjitter (by decide) (by decide)).bind (l := 0) fun dz => Build.Only.advances (.done _)

theorem advances_plantAround {plant : Pos → Build Unit} (h : ∀ q, (plant q).Only Act.Still)
    (trials : Nat) (soils : BlockSet) (p : Pos) :
    (plantAround trials soils plant p).Advances (6 * trials) := by
  have htrial : (plantTrial soils plant p).Advances 6 :=
    (advances_scatter p).bind (l := 0) fun q => Build.Only.advances (by simp [isPlantable, h])
  rw [← Nat.zero_add (6 * trials)]
  exact (htrial.repeated trials).bind fun _ => Build.Only.advances (.done true)

theorem Vines.advances_build (p : Pos) : (build p).Advances (6 * 64) := by
  have hheld (q : Pos) : (heldBits q).Only Act.Still :=
    .bind (.filterM fun f _ => by simp [isHeld]) fun fs => .done (bits fs)
  have htrial : (trial p).Advances 6 :=
    (advances_scatter p).bind (l := 0) fun q => Build.Only.advances (by simp [hheld])
  exact (htrial.repeated 64).bind (l := 0) fun _ => Build.Only.advances (.done true)

theorem TallPlant.advances_build (t : TallPlant) (p : Pos) : (t.build p).Advances (6 * 64) := by
  have htrial : (t.trial p).Advances 6 :=
    (advances_scatter p).bind (l := 0) fun q => Build.Only.advances (by simp [fits])
  exact htrial.anyRepeated 64

/-! ## Features -/

namespace Feature

/-- The features that take as much from the stream wherever they are built. -/
def DrawsAlike : Feature → Prop
  | tree (.small _) | tree (.largeOak _) | tree .darkOak | tree .pine | tree .spruce
  | tree .acacia | tree (.giantPine _) | tree (.jungleBush _) => True
  | tree (.jungle t) => t.vines = false
  | tree .swampOak | tree .giantJungle => False
  | vein _ | lake _ | spring _ | mushroom _ | icePath _ | clay _ | sand _ | boulder _ => True
  | dungeon | iceSpike | bush _ | deadBush | tallGrass _ | sugarCanes | pumpkin | cactus | vines
  | waterLily | tallPlant _ | patch _ => False

/-- The crown of a small tree fits around the origin. Nothing else needs room. -/
def CrownFits : Feature → Pos → Site → Prop
  | tree (.small t), p, s => t.CrownFits p s
  | _, _, _ => True

/-- The number of trials of the placers that draw for the cell of each trial alone. -/
def trials? : Feature → Option Nat
  | bush _ | vines | tallPlant _ => some 64
  | deadBush => some 4
  | tallGrass _ => some 128
  | waterLily => some 10
  | _ => none

theorem stream_build_eq {f : Feature} (hf : f.DrawsAlike) {p q : Pos} {s t : Site}
    (hp : f.CrownFits p s) (hq : f.CrownFits q t) (hst : s.stream = t.stream)
    (hs : ((f.build p).run s).1 = true) (ht : ((f.build q).run t).1 = true) :
    ((f.build p).run s).2.stream = ((f.build q).run t).2.stream := by
  cases f with
  | tree tree =>
      cases tree with
      | small small => exact SmallTree.stream_build_eq hp hq hst hs ht
      | largeOak oak => exact oak.inStep_build p q s t hst hs ht
      | darkOak => exact DarkOak.inStep_build p q s t hst hs ht
      | pine => exact Pine.inStep_build p q s t hst hs ht
      | spruce => exact Spruce.inStep_build p q s t hst hs ht
      | acacia => exact Acacia.inStep_build p q s t hst hs ht
      | jungle jungle => exact JungleTree.inStep_build hf p q s t hst hs ht
      | giantPine pine => exact pine.inStep_build p q s t hst hs ht
      | jungleBush bush => exact bush.inStep_build p q s t hst hs ht
      | swampOak => exact hf.elim
      | giantJungle => exact hf.elim
  | vein spec => exact Vein.inStep_build spec p q s t hst hs ht
  | lake fluid => exact LakeBasin.inStep_build fluid p q s t hst hs ht
  | spring fluid => exact Spring.inStep_build fluid p q s t hst hs ht
  | mushroom kind => exact HugeMushroom.inStep_build kind p q s t hst hs ht
  | icePath path => exact path.inStep_build p q s t hst hs ht
  | clay disc => exact Disc.inStep_lay disc.bound 1 _ _ p q s t hst hs ht
  | sand disc => exact Disc.inStep_lay disc.bound 2 _ _ p q s t hst hs ht
  | boulder b => exact b.inStep_build p q s t hst hs ht
  | _ => exact hf.elim

theorem advances_build {f : Feature} {n : Nat} (hf : f.trials? = some n) (p : Pos) :
    (f.build p).Advances (6 * n) := by
  cases f with
  | bush plant =>
      cases hf
      exact advances_plantAround (by simp) 64 _ p
  | deadBush =>
      cases hf
      exact advances_plantAround (by simp) 4 _ p
  | tallGrass data =>
      cases hf
      exact advances_plantAround (by simp) 128 _ p
  | vines =>
      cases hf
      exact Vines.advances_build p
  | waterLily =>
      cases hf
      exact advances_plantAround (by simp) 10 _ p
  | tallPlant plant =>
      cases hf
      exact plant.advances_build p
  | _ => cases hf

/-- Two runs of one feature that start from the same stream and both succeed end
with the same stream, wherever and in whatever worlds they were made; for a small
tree, if its crown fits around both origins. The scatter placers take six draws for
each trial, built or not. -/
theorem streams_stay_aligned :
    (∀ (f : Feature) (p q : Pos) (s t : Site), f.DrawsAlike → f.CrownFits p s → f.CrownFits q t →
      s.stream = t.stream → ((f.build p).run s).1 = true → ((f.build q).run t).1 = true →
        ((f.build p).run s).2.stream = ((f.build q).run t).2.stream) ∧
    ∀ (f : Feature) (n : Nat) (p : Pos) (s : Site), f.trials? = some n →
      ((f.build p).run s).2.stream = Stream.step^[6 * n] s.stream :=
  ⟨fun _ _ _ _ _ hf hp hq hst hs ht => stream_build_eq hf hp hq hst hs ht,
    fun _ _ p s hf => advances_build hf p s⟩

/-- An oak on grass and an oak with a log among its leaves leave the same stream. -/
theorem streams_stay_aligned_of_oaks :
    let w := World.ofLayers 3 [(.plain .dirt, 1), (.plain .grass, 1)]
    let s : Site := ⟨.ofWorld w, .ofSeed 11, #[]⟩
    let t : Site := ⟨.ofWorld (w.set ⟨41, 5, -9⟩ (.plain .log)), .ofSeed 11, #[]⟩
    let oak := build (.tree (.small .oak))
    ((oak ⟨0, 2, 0⟩).run s).1 = true ∧ ((oak ⟨40, 2, -9⟩).run t).1 = true ∧
      ((oak ⟨0, 2, 0⟩).run s).2.stream = ((oak ⟨40, 2, -9⟩).run t).2.stream := by
  intro w s t oak
  have hs : ((oak ⟨0, 2, 0⟩).run s).1 = true := by decide +kernel
  have ht : ((oak ⟨40, 2, -9⟩).run t).1 = true := by decide +kernel
  have hfits : SmallTree.oak.CrownFits ⟨0, 2, 0⟩ s :=
    ⟨⟨⟨by decide, by decide⟩, ⟨by decide, by decide⟩⟩, by decide +kernel⟩
  have hfits' : SmallTree.oak.CrownFits ⟨40, 2, -9⟩ t :=
    ⟨⟨⟨by decide, by decide⟩, ⟨by decide, by decide⟩⟩, by decide +kernel⟩
  have hsame := streams_stay_aligned.1 (.tree (.small .oak)) _ _ s t trivial hfits hfits' rfl hs ht
  exact ⟨hs, ht, hsame⟩

/-- At the end of the coordinates the crown of an oak wraps. No corner is drawn for,
and the stream stays behind. -/
theorem oak_at_edge_draws_less :
    ¬∀ (f : Feature) (p q : Pos) (s t : Site), f.DrawsAlike → s.stream = t.stream →
      ((f.build p).run s).1 = true → ((f.build q).run t).1 = true →
        ((f.build p).run s).2.stream = ((f.build q).run t).2.stream := by
  intro h
  let s : Site :=
    ⟨.ofWorld (.ofLayers 3 [(.plain .dirt, 1), (.plain .grass, 1)]), .ofSeed 11, #[]⟩
  have hsame := h (.tree (.small .oak)) ⟨0, 2, 0⟩ ⟨2147483647, 2, 0⟩ s s trivial rfl
    (by decide +kernel) (by decide +kernel)
  exact absurd hsame (by decide +kernel)

end Feature

end VoxelFeatures
