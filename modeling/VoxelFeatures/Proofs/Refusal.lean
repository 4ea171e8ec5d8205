import VoxelFeatures.Proofs.Inspection

/-!
# A refused feature leaves the world untouched

A feature searches and checks first, and places blocks only when it is bound to
succeed. `RefusesFirst` says this of a program: once it has placed a block, every
result that it can still end with is `true`. A run that ends with `false` has
then placed nothing, and left the journal, world and writes, as it was.
-/

namespace VoxelFeatures

/-- The act places a block. -/
def Act.Places : Act → Prop
  | place .. => True
  | draw _ | look _ | report _ => False

theorem Act.Inspects.not_places {a : Act} (h : a.Inspects) : ¬a.Places := by
  cases a with
  | draw d => exact id
  | look p => exact id
  | place p b notify => exact h.elim
  | report n => exact id

theorem Act.journal_perform {a : Act} (h : ¬a.Places) (s : Site) :
    (a.perform s).2.journal = s.journal := by
  cases a with
  | draw d => rfl
  | look p => rfl
  | place p b notify => exact absurd trivial h
  | report n => rfl

namespace Build

variable {α : Type}

/-- Every result of the program is `true`. -/
def Succeeds (m : Build Bool) : Prop := ∀ b, m.Returns b → b = true

/-- Once a block has been placed, the program succeeds. -/
inductive RefusesFirst : Build Bool → Prop
  | done (b : Bool) : RefusesFirst (done b)
  | act {a : Act} {next : a.Answer → Build Bool}
      (rest : ∀ r, a.Allows r → RefusesFirst (next r))
      (placed : a.Places → ∀ r, a.Allows r → (next r).Succeeds) : RefusesFirst (act a next)

/-! ## Success -/

@[simp] theorem succeeds_done (b : Bool) : (done b).Succeeds ↔ b = true := by
  simp [Succeeds]

@[simp] theorem succeeds_bind (m : Build α) (f : α → Build Bool) :
    (m >>= f).Succeeds ↔ ∀ a, m.Returns a → (f a).Succeeds := by
  simp only [Succeeds, returns_bind]
  constructor
  · intro h a ha b hb
    exact h b ⟨a, ha, hb⟩
  · rintro h b ⟨a, ha, hb⟩
    exact h a ha b hb

@[simp] theorem succeeds_ite (c : Prop) [Decidable c] (m n : Build Bool) :
    (if c then m else n).Succeeds ↔ (c → m.Succeeds) ∧ (¬c → n.Succeeds) := by
  split <;> simp [*]

/-! ## Refusal before the first block -/

theorem RefusesFirst.ite {c : Prop} [Decidable c] {m n : Build Bool} (hm : m.RefusesFirst)
    (hn : n.RefusesFirst) : (if c then m else n).RefusesFirst := by
  split
  · exact hm
  · exact hn

/-- A check without an act of its own. -/
theorem RefusesFirst.unless {c : Prop} [Decidable c] {m : Build Bool} (hm : m.RefusesFirst) :
    (if c then Build.done false else m).RefusesFirst :=
  .ite (.done false) hm

theorem Succeeds.refusesFirst {m : Build Bool} (h : m.Succeeds) : m.RefusesFirst := by
  induction m with
  | done b => exact .done b
  | act a next ih =>
      have hnext (r : a.Answer) (hr : a.Allows r) : (next r).Succeeds :=
        fun b hb => h b ⟨r, hr, hb⟩
      exact .act (fun r hr => ih r (hnext r hr)) fun _ => hnext

/-- A program without placements goes before one that refuses first. -/
theorem Only.refusesFirst_bind {m : Build α} (hm : m.Only fun a => ¬a.Places)
    {f : α → Build Bool} (hf : ∀ a, (f a).RefusesFirst) : (m >>= f).RefusesFirst := by
  induction hm with
  | done a => exact hf a
  | act head rest ih => exact .act ih fun ha => absurd ha head

theorem Only.refusesFirst_search {m : Build α} (hm : m.Only Act.Inspects) {f : α → Build Bool}
    (hf : ∀ a, (f a).RefusesFirst) : (m >>= f).RefusesFirst :=
  (hm.mono fun _ => Act.Inspects.not_places).refusesFirst_bind hf

/-- A check that refuses the feature when it fails. -/
theorem Only.refusesFirst_guard {c : Build Bool} (hc : c.Only Act.Inspects) {m : Build Bool}
    (hm : m.RefusesFirst) :
    (c >>= fun b => if b = true then m else Build.done false).RefusesFirst :=
  hc.refusesFirst_search fun _ => hm.ite (.done false)

/-- A program that succeeds after another one has, and refuses first otherwise. -/
theorem RefusesFirst.bind {m : Build Bool} (hm : m.RefusesFirst) {f : Bool → Build Bool}
    (htrue : (f true).Succeeds) (hfalse : (f false).RefusesFirst) : (m >>= f).RefusesFirst := by
  induction hm with
  | done b =>
      cases b with
      | false => exact hfalse
      | true => exact htrue.refusesFirst
  | act rest placed ih =>
      refine .act ih fun ha r hr => (succeeds_bind ..).2 fun b hb => ?_
      rw [placed ha r hr b hb]
      exact htrue

theorem RefusesFirst.anyRepeated {m : Build Bool} (hm : m.RefusesFirst) (n : Nat) :
    (anyRepeated m n).RefusesFirst := by
  induction n with
  | zero => exact .done false
  | succ n ih =>
      refine hm.bind (by simp) ?_
      simpa [bind_done] using ih

/-- A run that refuses has left the journal as it was. -/
theorem RefusesFirst.journal_run {m : Build Bool} (h : m.RefusesFirst) (s : Site)
    (hrefused : (m.run s).1 = false) : (m.run s).2.journal = s.journal := by
  induction h generalizing s with
  | done b => rfl
  | @act a next rest placed ih =>
      have hanswer := a.allows_perform s
      have hnot : ¬a.Places := by
        intro ha
        have hresult := placed ha _ hanswer _ (returns_run _ (a.perform s).2)
        rw [run_act, hresult] at hrefused
        exact absurd hrefused (by decide)
      exact (ih _ hanswer _ hrefused).trans (a.journal_perform hnot s)

end Build

open Build

/-! ## Trees -/

theorem SmallTree.refusesFirst_build (t : SmallTree) (p : Pos) : (t.build p).RefusesFirst := by
  apply t.inspects_height.refusesFirst_search
  intro h
  apply (inspects_isClear ..).refusesFirst_guard
  apply Only.refusesFirst_guard (by simp)
  apply Succeeds.refusesFirst
  simp

theorem LargeOak.refusesFirst_build (t : LargeOak) (p : Pos) : (t.build p).RefusesFirst := by
  apply Only.refusesFirst_search (by simp)
  intro own
  apply (inspects_stand ..).refusesFirst_search
  intro stand
  cases stand with
  | none => exact .done false
  | some s => exact Succeeds.refusesFirst (by simp)

theorem DarkOak.refusesFirst_build (p : Pos) : (build p).RefusesFirst := by
  apply Only.refusesFirst_search (by simp)
  intro first
  apply Only.refusesFirst_search (by simp)
  intro second
  apply RefusesFirst.unless
  apply Only.refusesFirst_guard (by simp)
  apply (inspects_isClear ..).refusesFirst_guard
  apply Succeeds.refusesFirst
  simp

theorem Pine.refusesFirst_build (p : Pos) : (build p).RefusesFirst := by
  apply Only.refusesFirst_search (by simp)
  intro extra
  apply Only.refusesFirst_search (by simp)
  intro drawn
  apply RefusesFirst.unless
  apply Only.refusesFirst_search (by simp)
  intro soil
  refine RefusesFirst.ite (Succeeds.refusesFirst ?_) (.done false)
  simp

theorem Spruce.refusesFirst_build (p : Pos) : (build p).RefusesFirst := by
  apply Only.refusesFirst_guard (by simp)
  apply Succeeds.refusesFirst
  simp

theorem Acacia.refusesFirst_build (p : Pos) : (build p).RefusesFirst := by
  apply Only.refusesFirst_search (by simp)
  intro first
  apply Only.refusesFirst_search (by simp)
  intro second
  apply RefusesFirst.unless
  apply (inspects_isClear ..).refusesFirst_guard
  apply Only.refusesFirst_guard (by simp)
  apply RefusesFirst.unless
  apply Succeeds.refusesFirst
  simp

theorem SwampOak.refusesFirst_build (p : Pos) : (build p).RefusesFirst := by
  apply Only.refusesFirst_search (by simp)
  intro extra
  apply (inspects_sink ..).refusesFirst_search
  intro base
  apply RefusesFirst.unless
  apply (inspects_isClear ..).refusesFirst_guard
  apply Only.refusesFirst_guard (by simp)
  apply RefusesFirst.unless
  apply Succeeds.refusesFirst
  simp

theorem JungleTree.refusesFirst_build (t : JungleTree) (p : Pos) : (t.build p).RefusesFirst := by
  apply Only.refusesFirst_search (by simp)
  intro extra
  apply (Ground.inspects_below ..).refusesFirst_search
  intro ground
  cases ground with
  | none => exact .done false
  | some y =>
      apply RefusesFirst.unless
      apply Only.refusesFirst_guard (by simp)
      apply Succeeds.refusesFirst
      simp

theorem JungleBush.refusesFirst_build (b : JungleBush) (p : Pos) : (b.build p).RefusesFirst := by
  apply (Build.inspects_sink ..).refusesFirst_search
  intro soil
  apply Only.refusesFirst_guard (by simp)
  apply Succeeds.refusesFirst
  simp

theorem GiantJungle.refusesFirst_build (p : Pos) : (build p).RefusesFirst := by
  apply Only.refusesFirst_search (by simp)
  intro extra
  apply RefusesFirst.unless
  apply Only.refusesFirst_guard (.allM fun q _ => by simp)
  apply Succeeds.refusesFirst
  simp

theorem GiantPine.refusesFirst_build (t : GiantPine) (p : Pos) : (t.build p).RefusesFirst := by
  apply (Ground.inspects_below ..).refusesFirst_search
  intro ground
  cases ground with
  | none => exact .done false
  | some y =>
      apply RefusesFirst.unless
      apply Only.refusesFirst_guard (.allM fun c _ => by simp)
      apply Succeeds.refusesFirst
      simp

theorem Tree.refusesFirst_build (t : Tree) (p : Pos) : (t.build p).RefusesFirst := by
  cases t with
  | small t => exact t.refusesFirst_build p
  | largeOak t => exact t.refusesFirst_build p
  | darkOak => exact DarkOak.refusesFirst_build p
  | pine => exact Pine.refusesFirst_build p
  | spruce => exact Spruce.refusesFirst_build p
  | acacia => exact Acacia.refusesFirst_build p
  | swampOak => exact SwampOak.refusesFirst_build p
  | jungle t => exact t.refusesFirst_build p
  | giantJungle => exact GiantJungle.refusesFirst_build p
  | giantPine t => exact t.refusesFirst_build p
  | jungleBush b => exact b.refusesFirst_build p

/-! ## Other features -/

theorem LakeBasin.refusesFirst_build (fluid : BlockId) (p : Pos) :
    (build fluid p).RefusesFirst := by
  apply (inspects_ground p).refusesFirst_search
  intro bottom
  apply RefusesFirst.unless
  apply inspects_draw.refusesFirst_search
  intro b
  apply (inspects_opening ..).refusesFirst_search
  intro found
  cases found with
  | none => exact Succeeds.refusesFirst (by simp)
  | some fluidAt => exact Only.refusesFirst_bind (by simp [Act.Places]) fun _ => .done false

theorem Spring.refusesFirst_build (fluid : BlockId) (p : Pos) :
    (build fluid p).RefusesFirst := by
  apply Only.refusesFirst_guard (by simp)
  apply Only.refusesFirst_guard (by simp)
  apply Only.refusesFirst_guard (by simp)
  apply Only.refusesFirst_search (.mapM fun q _ => by simp)
  intro sides
  refine RefusesFirst.ite (Succeeds.refusesFirst ?_) (.done false)
  simp

theorem Dungeon.refusesFirst_build (p : Pos) : (build p).RefusesFirst := by
  apply Only.refusesFirst_search (by simp)
  intro drawnX
  apply Only.refusesFirst_search (by simp)
  intro drawnZ
  apply (inspects_openings _).refusesFirst_search
  intro count
  cases count with
  | none => exact .done false
  | some openings =>
      refine RefusesFirst.ite ?_ (Succeeds.refusesFirst (by simp))
      exact Only.refusesFirst_bind (by simp [Act.Places]) fun _ => .done false

theorem HugeMushroom.refusesFirst_build (k : MushroomKind) (p : Pos) :
    (build k p).RefusesFirst := by
  apply (inspects_species k).refusesFirst_search
  intro s
  apply inspects_height.refusesFirst_search
  intro h
  apply RefusesFirst.unless
  apply (inspects_isClear ..).refusesFirst_guard
  apply Only.refusesFirst_guard (by simp)
  apply Succeeds.refusesFirst
  simp

theorem IcePath.refusesFirst_build (i : IcePath) (p : Pos) : (i.build p).RefusesFirst := by
  apply (PackedIce.inspects_findSnow p).refusesFirst_search
  intro snow
  cases snow with
  | none => exact .done false
  | some q => exact Succeeds.refusesFirst (by simp)

theorem IceSpike.refusesFirst_build (p : Pos) : (build p).RefusesFirst := by
  apply (PackedIce.inspects_findSnow p).refusesFirst_search
  intro snow
  cases snow with
  | none => exact .done false
  | some q => exact Succeeds.refusesFirst (by simp)

theorem Disc.refusesFirst_lay (bound half : Int32) (block : BlockId) (replaceable : BlockSet)
    (p : Pos) : (lay bound half block replaceable p).RefusesFirst := by
  apply Only.refusesFirst_search (by simp)
  intro id
  refine RefusesFirst.ite (Succeeds.refusesFirst ?_) (.done false)
  simp

theorem Boulder.refusesFirst_build (b : Boulder) (p : Pos) : (b.build p).RefusesFirst := by
  apply (inspects_fall ..).refusesFirst_search
  intro ground
  apply RefusesFirst.unless
  apply Succeeds.refusesFirst
  simp

theorem TallPlant.refusesFirst_build (t : TallPlant) (p : Pos) : (t.build p).RefusesFirst := by
  refine RefusesFirst.anyRepeated ?_ 64
  apply (inspects_scatter p).refusesFirst_search
  intro q
  apply RefusesFirst.unless
  apply (inspects_fits q).refusesFirst_guard
  apply Succeeds.refusesFirst
  simp

/-- Scattered plants of one cell always succeed. -/
theorem succeeds_plantAround (trials : Nat) (soils : BlockSet) (plant : Pos → Build Unit)
    (p : Pos) : (plantAround trials soils plant p).Succeeds := by
  simp [plantAround]

namespace Feature

theorem refusesFirst_build (f : Feature) (p : Pos) : (f.build p).RefusesFirst := by
  cases f with
  | tree t => exact t.refusesFirst_build p
  | vein spec => exact Succeeds.refusesFirst (by simp [build, Vein.build])
  | lake fluid => exact LakeBasin.refusesFirst_build fluid p
  | spring fluid => exact Spring.refusesFirst_build fluid p
  | dungeon => exact Dungeon.refusesFirst_build p
  | mushroom kind => exact HugeMushroom.refusesFirst_build kind p
  | icePath path => exact path.refusesFirst_build p
  | iceSpike => exact IceSpike.refusesFirst_build p
  | bush plant => exact (succeeds_plantAround _ _ _ p).refusesFirst
  | deadBush => exact (succeeds_plantAround _ _ _ p).refusesFirst
  | tallGrass data => exact (succeeds_plantAround _ _ _ p).refusesFirst
  | sugarCanes => exact Succeeds.refusesFirst (by simp [build, Stalk.sugarCanes])
  | pumpkin => exact (succeeds_plantAround _ _ _ p).refusesFirst
  | cactus => exact (succeeds_plantAround _ _ _ p).refusesFirst
  | vines => exact Succeeds.refusesFirst (by simp [build, Vines.build])
  | waterLily => exact (succeeds_plantAround _ _ _ p).refusesFirst
  | tallPlant plant => exact plant.refusesFirst_build p
  | patch id => exact (succeeds_plantAround _ _ _ p).refusesFirst
  | clay disc => exact Disc.refusesFirst_lay _ _ _ _ p
  | sand disc => exact Disc.refusesFirst_lay _ _ _ _ p
  | boulder b => exact b.refusesFirst_build p

/-- A feature that refuses has made no write: world and writes are the same. -/
theorem journal_of_refused (f : Feature) (p : Pos) (s : Site)
    (hrefused : ((f.build p).run s).1 = false) : ((f.build p).run s).2.journal = s.journal :=
  (f.refusesFirst_build p).journal_run s hrefused

/-- A pine refuses to grow on stone. -/
theorem journal_of_refused_pine :
    let s : Site := ⟨.ofWorld (.ofLayers 1 [(.plain .stone, 1)]), .ofSeed 7, #[]⟩
    (((tree .pine).build ⟨3, 1, -5⟩).run s).1 = false ∧
      (((tree .pine).build ⟨3, 1, -5⟩).run s).2.journal = s.journal :=
  ⟨by decide +kernel, journal_of_refused _ _ _ (by decide +kernel)⟩

end Feature

end VoxelFeatures
