import VoxelFeatures.Proofs.AlignedTrees
import VoxelFeatures.Proofs.Lasting
import VoxelFeatures.Proofs.Overgrowth

/-!
# Trunks that stand in full

Logs, leaves and vines of a tree are stamped over one another. The trunk of a jungle tree or
a giant pine is placed whatever is there, and what comes after it fills air or replaces
leaves. A swamp oak lays its leaves first, and they go through its own trunk. The trunk
replaces only some blocks then, but leaves are among them, and the check of the column has
left no others there. So the trunk is full in each of them, from the ground that the tree
has found up to its drawn height.
-/

namespace VoxelFeatures

open Build

/-- The trunk stands in full on its base, in each of its columns, within the height of the
world. -/
def StandsIn (b : Block) (columns : List (Int32 × Int32)) (base : Pos) (height : Int32)
    (j : Journal) : Prop :=
  ∀ d ∈ columns, ∀ dy, 0 ≤ dy → dy < height →
    (base.shift d.1 dy d.2).inHeight ∧ j.get (base.shift d.1 dy d.2) = b

variable {p base : Pos} {height : Int32} {s : Site}

theorem Write.Fills.renews {b : Block} {w : Write} (h : w.Fills) (hb : b.id ≠ .air) :
    w.Renews b :=
  fun hsame => absurd (hsame.symm.trans h) hb

theorem Pos.up_ne_down {dy : Int32} (hdy : 0 ≤ dy) : base.up dy ≠ base.down 1 :=
  fun hsame => add_ne_sub_one hdy (congrArg Pos.y hsame)

theorem standsIn_single {b : Block} {j : Journal} :
    StandsIn b [(0, 0)] base height j ↔
      ∀ dy, 0 ≤ dy → dy < height → (base.up dy).inHeight ∧ j.get (base.up dy) = b := by
  simp only [StandsIn, List.forall_mem_singleton, Pos.shift, Pos.up, Int32.add_zero]

/-- A trunk of guarded logs has those that it was free to place. -/
theorem settled_growTrunk {S : BlockSet} {b : Block} (hb : b.data < 16) {dy : Int32}
    (hdy : 0 ≤ dy ∧ dy < height) (hin : (p.up dy).inHeight)
    (hfree : S.contains (s.journal.idAt (p.up dy))) :
    Settled (p.up dy) b ((growTrunk S b p height).run s).2.journal := by
  have hcells : ((Span.halfOpen 0 height).toList.map p.up).Nodup := by
    refine List.pairwise_map.2 ((Span.pairwise_halfOpen 0 height).imp fun {k k'} hlt hsame => ?_)
    have hk : k = k' := (Int32.add_right_inj p.y).1 (congrArg Pos.y hsame)
    exact Int32.lt_irrefl (hk ▸ hlt)
  have hgrow : growTrunk S b p height =
      forM ((Span.halfOpen 0 height).toList.map p.up) fun c => replace S c b := by
    rw [growTrunk, Span.forM_eq, List.forM_eq_forM, List.forM_map]
  have hcell := (replaced_forM S hb hcells s).1 (p.up dy)
    (List.mem_map_of_mem (Span.mem_halfOpen.2 hdy))
  rw [Replaced, if_pos ⟨hfree, hin⟩] at hcell
  rwa [hgrow]

/-! The result of a build follows from its guards, for what comes after them always succeeds. -/

theorem run_unless_eq_true_iff {c : Prop} [Decidable c] {m : Build Bool} :
    ((if c then done false else m).run s).1 = true ↔ ¬c ∧ (m.run s).1 = true := by
  split
  · rename_i hc
    exact iff_of_false Bool.false_ne_true fun h => h.1 hc
  · rename_i hc
    exact (and_iff_right hc).symm

theorem run_check_eq_true_iff {clear m : Build Bool} (hlooks : clear.Only Act.Looks) :
    ((clear >>= fun ok => if ok = true then m else done false).run s).1 = true ↔
      (clear.run s).1 = true ∧ (m.run s).1 = true := by
  rw [run_bind, hlooks.run_looks]
  split
  · rename_i hclear
    exact (and_iff_right hclear).symm
  · rename_i hclear
    exact iff_of_false Bool.false_ne_true fun h => hclear h.1

/-! ## Jungle trees -/

namespace JungleTree

/-- Above the soil a jungle tree fills air and stacks its logs. -/
def Stacks (base : Pos) (w : Write) : Prop :=
  w.Fills ∨ w.block = Species.jungle.trunk ∧ w.pos ≠ base.down 1

theorem Stacks.renews_trunk {w : Write} (h : Stacks base w) : w.Renews Species.jungle.trunk :=
  h.elim (fun hfill => hfill.renews (by decide)) fun hlog _ => hlog.1

theorem Stacks.renews_soil {w : Write} (h : Stacks base w) (hw : w.pos = base.down 1) :
    w.Renews Ground.dirt :=
  h.elim (fun hfill => hfill.renews (by decide)) fun hlog => absurd hw hlog.2

theorem fills_vines (t : JungleTree) (q : Pos) (dy : Int32) :
    (if t.vines ∧ 0 < dy then (sides q).forM fun (p, f) => tryVine p f else .done ()).Adds
      Write.Fills :=
  .ite (.forM fun c _ => fills_tryVine c.1 c.2) (adds_done ())

theorem stacks_trunkLayer (t : JungleTree) {dy : Int32} (hdy : 0 ≤ dy) :
    (t.trunkLayer base dy).Adds (Stacks base) :=
  (adds_place fun _ => .inr ⟨rfl, Pos.up_ne_down hdy⟩).bind fun _ =>
    (t.fills_vines _ dy).mono fun _ => .inl

theorem settled_trunkLayer (t : JungleTree) {dy : Int32} (hin : (base.up dy).inHeight)
    (s : Site) :
    Settled (base.up dy) Species.jungle.trunk ((t.trunkLayer base dy).run s).2.journal := by
  rw [trunkLayer, run_bind]
  refine settled_of_adds (by decide) ?_ (s.settled_place_of_lt hin (by decide))
  exact (t.fills_vines _ dy _).mono fun w hw _ => hw.renews (by decide)

/-- The crown of a jungle tree. -/
def leaf (t : JungleTree) (base : Pos) (height : Int32) : Build Bool := do
  (Span.closed (base.y + height - 3) (base.y + height)).forM
    (t.crownLayer base (base.y + height))
  return true

/-- A jungle tree on its base. -/
def grow (t : JungleTree) (base : Pos) (height : Int32) : Build Bool := do
  (Span.halfOpen 0 height).forM (t.trunkLayer base)
  t.leaf base height

theorem fills_leaf (t : JungleTree) (base : Pos) (height : Int32) :
    (t.leaf base height).Adds Write.Fills :=
  Adds.bind (.forM_span fun y => t.fills_crownLayer _ _ y) fun _ => adds_done _

theorem stands_grow (t : JungleTree) (hbase : 1 ≤ base.y) (hheight : 4 ≤ height ∧ height ≤ 10)
    (htop : base.y ≤ 127 - height) (hsoil : Settled (base.down 1) Ground.dirt s.journal) :
    StandsIn Species.jungle.trunk [(0, 0)] base height ((t.grow base height).run s).2.journal ∧
      ((t.grow base height).run s).2.journal.get (base.down 1) = Ground.dirt := by
  have hlayer : ∀ dy ∈ (Span.halfOpen 0 height).toList,
      (t.trunkLayer base dy).Adds (Stacks base) :=
    fun dy hdy => t.stacks_trunkLayer (Span.mem_halfOpen.1 hdy).1
  rw [grow, Span.forM_eq, List.forM_eq_forM]
  constructor
  · refine standsIn_single.2 fun dy hlow hhigh => ?_
    have hin : (base.up dy).inHeight := by
      rw [Pos.inHeight_iff, Pos.up]
      lia
    have htrunk := settled_forM (by decide)
      (fun dy hdy => (hlayer dy hdy).mono fun _ h => h.renews_trunk)
      (Span.mem_halfOpen.2 ⟨hlow, hhigh⟩) (t.settled_trunkLayer hin) s
    rw [run_bind]
    exact ⟨hin, (settled_of_adds (by decide)
      ((t.fills_leaf base height _).mono fun w hw _ => hw.renews (by decide)) htrunk).2⟩
  · have hgrow := (Adds.forM hlayer).bind fun _ =>
      (t.fills_leaf base height).mono fun _ => Or.inl
    exact (settled_of_adds (by decide) ((hgrow s).mono fun w hw => hw.renews_soil) hsoil).2

/-- A jungle tree of known height on the ground that was found. -/
def settle (t : JungleTree) (p : Pos) (height : Int32) : Option Int32 → Build Bool
  | none => return false
  | some ground => do
      if 127 - height < ground then return false
      let base : Pos := ⟨p.x, ground, p.z⟩
      unless ← Build.isIn Ground.soils (base.down 1) do return false
      Build.place (base.down 1) Ground.dirt
      t.grow base height

theorem build_eq (t : JungleTree) (p : Pos) :
    t.build p =
      bounded 7 >>= fun tall => Ground.below searchedSoils p >>= t.settle p (4 + tall) := by
  refine congrArg (bounded 7 >>= ·) (funext fun tall => ?_)
  refine congrArg (Ground.below searchedSoils p >>= ·) (funext fun ground => ?_)
  cases ground with
  | none => rfl
  | some ground =>
      simp only [settle, grow, leaf]
      rfl

theorem stands_settle (t : JungleTree) {g : Int32} (hg : 1 ≤ g)
    (hheight : 4 ≤ height ∧ height ≤ 10) (hbuilt : ((t.settle p height (some g)).run s).1 = true) :
    let j := ((t.settle p height (some g)).run s).2.journal
    StandsIn Species.jungle.trunk [(0, 0)] ⟨p.x, g, p.z⟩ height j ∧
      j.get ⟨p.x, g - 1, p.z⟩ = Ground.dirt := by
  simp only [settle, pure_eq] at hbuilt ⊢
  obtain ⟨hhigh, hrun⟩ := run_of_not hbuilt
  rw [hrun] at hbuilt ⊢
  obtain ⟨hsoil, hrun⟩ := run_of_check (by simp) hbuilt
  rw [hrun, run_bind]
  have hin := Journal.inHeight_of_contains (by decide) hsoil
  exact stands_grow t hg hheight (Int32.not_lt.1 hhigh) (s.settled_place_of_lt hin (by decide))

theorem stands_build (t : JungleTree) (hbuilt : ((t.build p).run s).1 = true) :
    ∃ g, ((Ground.below searchedSoils p).run ((bounded 7).run s).2).1 = some g ∧
      (1 ≤ g ∧ 4 ≤ 4 + ((bounded 7).run s).1) ∧
      StandsIn Species.jungle.trunk [(0, 0)] ⟨p.x, g, p.z⟩ (4 + ((bounded 7).run s).1)
        ((t.build p).run s).2.journal ∧
      ((t.build p).run s).2.journal.get ⟨p.x, g - 1, p.z⟩ = Ground.dirt := by
  have hdraw := returns_run (bounded 7) s
  rw [build_eq, run_bind, run_bind] at hbuilt ⊢
  generalize (bounded 7).run s = tall at hdraw hbuilt ⊢
  have hreturns := returns_run (Ground.below searchedSoils p) tall.2
  generalize (Ground.below searchedSoils p).run tall.2 = found at hreturns hbuilt ⊢
  obtain ⟨ground, s'⟩ := found
  have hrange := ((returns_bounded 7 tall.1).1 hdraw).1 (by decide)
  cases ground with
  | none => cases hbuilt
  | some g =>
      have hg := Ground.one_le_of_returns_below hreturns
      exact ⟨g, rfl, ⟨hg, by lia⟩, t.stands_settle hg (by lia) hbuilt⟩

end JungleTree

/-! ## Giant pines -/

namespace GiantPine

theorem renews_crownLayer (p : Pos) (top y : Int32) :
    (crownLayer p top y).Adds (Write.Renews Species.spruce.trunk) := by
  refine (adds_of_inspects (inspects_crownRadius _)).bind fun r => .forSquare fun x z => ?_
  refine .ite (adds_replace fun before hfree hsame => ?_) (adds_done ())
  rw [hsame] at hfree
  exact absurd hfree (by decide)

theorem renews_trunkLayer (base : Pos) (dy : Int32) :
    (trunkLayer base dy).Adds (Write.Renews Species.spruce.trunk) :=
  .forM fun _ _ => adds_place fun _ _ => rfl

theorem settled_trunkLayer {d : Int32 × Int32} (hd : d ∈ columns) {dy : Int32}
    (hin : (base.shift d.1 dy d.2).inHeight) (s : Site) :
    Settled (base.shift d.1 dy d.2) Species.spruce.trunk
      ((trunkLayer base dy).run s).2.journal := by
  have hlog : ∀ c ∈ columns, (place (base.shift c.1 dy c.2) Species.spruce.trunk).Adds
      (Write.Renews Species.spruce.trunk) := fun _ _ => adds_place fun _ _ => rfl
  have hplaced (s : Site) : Settled (base.shift d.1 dy d.2) Species.spruce.trunk
      ((place (base.shift d.1 dy d.2) Species.spruce.trunk).run s).2.journal :=
    s.settled_place_of_lt hin (by decide)
  exact settled_forM (by decide) hlog hd hplaced s

/-- The crown of a giant pine. -/
def leaf (base : Pos) (height : Int32) : Build Bool := do
  let top := base.y + height
  let bottom := top - (← Build.bounded 3) - 3
  (Span.closed bottom top).reverse.forM (crownLayer base top)
  return true

/-- A giant pine on its base. -/
def grow (t : GiantPine) (base : Pos) (height : Int32) : Build Bool := do
  if t.podzol then spreadPodzol base
  (Span.halfOpen 0 height).forM (trunkLayer base)
  leaf base height

theorem renews_leaf : (leaf base height).Adds (Write.Renews Species.spruce.trunk) :=
  (adds_bounded _).bind fun _ =>
    Adds.bind (.forM_span fun y => renews_crownLayer _ _ y) fun _ => adds_done _

theorem stands_grow (t : GiantPine) (hbase : 1 ≤ base.y ∧ base.y ≤ 110)
    (hheight : 13 ≤ height ∧ height ≤ 27) :
    StandsIn Species.spruce.trunk columns base height ((t.grow base height).run s).2.journal := by
  intro d hd dy hlow hhigh
  have hin : (base.shift d.1 dy d.2).inHeight := by
    rw [Pos.inHeight_iff, Pos.shift]
    lia
  have htrunk (s : Site) : Settled (base.shift d.1 dy d.2) Species.spruce.trunk
      (((Span.halfOpen 0 height).forM (trunkLayer base)).run s).2.journal := by
    rw [Span.forM_eq, List.forM_eq_forM]
    exact settled_forM (by decide) (fun dy _ => renews_trunkLayer base dy)
      (Span.mem_halfOpen.2 ⟨hlow, hhigh⟩) (settled_trunkLayer hd hin) s
  have hleaf (s : Site) (hs : Settled (base.shift d.1 dy d.2) Species.spruce.trunk s.journal) :
      Settled (base.shift d.1 dy d.2) Species.spruce.trunk
        ((leaf base height).run s).2.journal :=
    settled_of_adds (by decide) ((renews_leaf s).mono fun w hw _ => hw) hs
  rw [grow]
  refine ⟨hin, ?_⟩
  split
  · rw [run_bind, run_bind]
    exact (hleaf _ (htrunk _)).2
  · rw [run_bind]
    exact (hleaf _ (htrunk _)).2

/-- A giant pine on the ground that was found. -/
def settle (t : GiantPine) (p : Pos) : Option Int32 → Build Bool
  | none => return false
  | some ground => do
      if 110 < ground then return false
      let base : Pos := ⟨p.x, ground, p.z⟩
      unless ← columns.allM fun (dx, dz) => Build.isIn soils (base.shift dx (-1) dz) do
        return false
      t.grow base (13 + (← Build.bounded 15))

theorem run_grow_fst (t : GiantPine) (base : Pos) (height : Int32) (s : Site) :
    ((t.grow base height).run s).1 = true := by
  rw [grow]
  split
  · rw [run_bind, run_bind, leaf, run_bind, run_bind]
    rfl
  · rw [run_bind, leaf, run_bind, run_bind]
    rfl

theorem looks_columns (base : Pos) :
    (columns.allM fun (dx, dz) => Build.isIn soils (base.shift dx (-1) dz)).Only Act.Looks :=
  .allM fun d _ => by simp

theorem settle_eq_true_iff (t : GiantPine) {g : Int32} :
    ((t.settle p (some g)).run s).1 = true ↔
      ¬110 < g ∧ ∀ d ∈ columns,
        soils.contains (s.journal.idAt ((⟨p.x, g, p.z⟩ : Pos).shift d.1 (-1) d.2)) := by
  simp only [settle, pure_eq]
  rw [run_unless_eq_true_iff, run_check_eq_true_iff (looks_columns _), run_bind,
    run_allM_iff fun d _ => by simp]
  simp only [run_grow_fst, and_true, run_isIn]

theorem build_eq (t : GiantPine) (p : Pos) :
    t.build p = Ground.below soils p >>= t.settle p := by
  refine congrArg (Ground.below soils p >>= ·) (funext fun ground => ?_)
  cases ground with
  | none => rfl
  | some ground =>
      simp only [settle, grow, leaf]
      rfl

theorem stands_settle (t : GiantPine) {g : Int32} (hg : 1 ≤ g)
    (hbuilt : ((t.settle p (some g)).run s).1 = true) :
    13 ≤ 13 + ((bounded 15).run s).1 ∧
      StandsIn Species.spruce.trunk columns ⟨p.x, g, p.z⟩ (13 + ((bounded 15).run s).1)
        ((t.settle p (some g)).run s).2.journal := by
  simp only [settle, pure_eq] at hbuilt ⊢
  obtain ⟨hhigh, hrun⟩ := run_of_not hbuilt
  rw [hrun] at hbuilt ⊢
  obtain ⟨-, hrun⟩ := run_of_check (looks_columns _) hbuilt
  rw [hrun, run_bind]
  have hrange := ((returns_bounded 15 _).1 (returns_run (bounded 15) s)).1 (by decide)
  generalize (bounded 15).run s = tall at hrange ⊢
  exact ⟨by lia, t.stands_grow ⟨hg, Int32.not_lt.1 hhigh⟩ (by lia)⟩

theorem stands_build (t : GiantPine) (hbuilt : ((t.build p).run s).1 = true) :
    ∃ g, ((Ground.below soils p).run s).1 = some g ∧
      (1 ≤ g ∧ 13 ≤ 13 + ((bounded 15).run ((Ground.below soils p).run s).2).1) ∧
      StandsIn Species.spruce.trunk columns ⟨p.x, g, p.z⟩
        (13 + ((bounded 15).run ((Ground.below soils p).run s).2).1)
        ((t.build p).run s).2.journal := by
  have hreturns := returns_run (Ground.below soils p) s
  rw [build_eq, run_bind] at hbuilt ⊢
  generalize (Ground.below soils p).run s = found at hreturns hbuilt ⊢
  obtain ⟨ground, s'⟩ := found
  cases ground with
  | none => cases hbuilt
  | some g =>
      have hg := Ground.one_le_of_returns_below hreturns
      obtain ⟨hheight, hstands⟩ := t.stands_settle hg hbuilt
      exact ⟨g, rfl, ⟨hg, hheight⟩, hstands⟩

end GiantPine

/-! ## Swamp oaks -/

namespace SwampOak

/-- The crown that a swamp oak lays before its trunk. -/
def crown (p : Pos) (height : Int32) : Build Unit :=
  (Span.closed (p.y + height - 3) (p.y + height)).forM (crownLayer p (p.y + height))

def vines (p : Pos) (height : Int32) : Build Bool := do
  (Span.closed (p.y + height - 3) (p.y + height)).forM (vineLayer p (p.y + height))
  return true

/-- A swamp oak above its soil. -/
def grow (p : Pos) (height : Int32) : Build Bool := do
  crown p height
  growTrunk trunkReplaceable Species.oak.trunk p height
  vines p height

theorem fills_vines (p : Pos) (height : Int32) : (vines p height).Adds Write.Fills :=
  Adds.bind (.forM_span fun y => fills_vineLayer _ _ y) fun _ => adds_done _

theorem lays_crown (p : Pos) (height : Int32) :
    (crown p height).Only (Act.Lays trunkReplaceable) := by
  have hleaf : trunkReplaceable.contains Species.oak.leaf.id := by decide
  simp [crown, crownLayer, SmallTree.hasLeaf, hleaf]

/-- Nothing that is laid above the soil is laid on it. -/
theorem spares_soil_grow (hp : 1 ≤ p.y ∧ p.y ≤ 255 - height) (hheight : 5 ≤ height ∧ height ≤ 8) :
    (grow p height).Adds fun w => w.Fills ∨ w.pos ≠ p.down 1 := by
  refine Adds.bind ?_ fun _ => Adds.bind ?_ fun _ => (fills_vines p height).mono fun _ => .inl
  · rw [crown, Span.forM_eq, List.forM_eq_forM]
    refine .forM fun y hy => .forOffsets fun dx dz => ?_
    refine (adds_of_inspects (SmallTree.inspects_hasLeaf ..)).bind fun kept => ?_
    refine .ite ?_ (adds_done ())
    refine adds_place fun _ => .inr fun hsame => ?_
    have hlow : y = p.y - 1 := congrArg Pos.y hsame
    rw [Span.mem_closed] at hy
    lia
  · rw [growTrunk, Span.forM_eq, List.forM_eq_forM]
    exact .forM fun dy hdy => adds_replace fun _ _ =>
      .inr (Pos.up_ne_down (Span.mem_halfOpen.1 hdy).1)

theorem stands_grow (hroom : p.HasRoom 3) (hp : 1 ≤ p.y ∧ p.y ≤ 255 - height)
    (hheight : 5 ≤ height ∧ height ≤ 8)
    (hheld : s.Holds trunkReplaceable (InSpace p height (clearRadius p height)))
    (hsoil : Settled (p.down 1) Ground.dirt s.journal) :
    StandsIn Species.oak.trunk [(0, 0)] p height ((grow p height).run s).2.journal ∧
      ((grow p height).run s).2.journal.get (p.down 1) = Ground.dirt := by
  constructor
  · refine standsIn_single.2 fun dy hlow hhigh => ?_
    have hin : (p.up dy).inHeight := by
      rw [Pos.inHeight_iff, Pos.up]
      lia
    have hspace : InSpace p height (clearRadius p height) (p.up dy) := by
      obtain ⟨hnarrow, hwide⟩ := clearRadius_range p height (p.up dy).y
      have hfits := hroom.mono hnarrow hwide
      refine ⟨Span.mem_closed.2 ?_, hfits.x.mem_around_self hnarrow,
        hfits.z.mem_around_self hnarrow⟩
      simp only [Pos.up]
      lia
    have hfree := ((lays_crown p height).held hheld).1 (p.up dy) hspace
    have htrunk := settled_growTrunk (b := Species.oak.trunk) (by decide) ⟨hlow, hhigh⟩ hin
      hfree
    rw [grow, run_bind, run_bind]
    exact ⟨hin, (settled_of_adds (by decide)
      ((fills_vines p height _).mono fun w hw _ => hw.renews (by decide)) htrunk).2⟩
  · refine (settled_of_adds (by decide) ((spares_soil_grow hp hheight s).mono fun w hw hat => ?_)
      hsoil).2
    exact hw.elim (fun hfill => hfill.renews (by decide)) fun hne => absurd hat hne

/-- A swamp oak of known height on the base that it has sunk to. -/
def settle (height : Int32) (p : Pos) : Build Bool := do
  if p.y < 1 ∨ 256 < p.y + height + 1 then return false
  unless ← isClear p height do return false
  unless ← Build.isIn Ground.soils (p.down 1) do return false
  if 256 - height - 1 ≤ p.y then return false
  Build.place (p.down 1) Ground.dirt
  grow p height

theorem run_grow_fst (p : Pos) (height : Int32) (s : Site) :
    ((grow p height).run s).1 = true := by
  rw [grow, run_bind, run_bind, vines, run_bind]
  rfl

theorem settle_eq_true_iff :
    ((settle height p).run s).1 = true ↔
      ¬(p.y < 1 ∨ 256 < p.y + height + 1) ∧ ((isClear p height).run s).1 = true ∧
        Ground.soils.contains (s.journal.idAt (p.down 1)) ∧ ¬256 - height - 1 ≤ p.y := by
  simp only [settle, pure_eq]
  rw [run_unless_eq_true_iff, run_check_eq_true_iff (looks_isClear p height),
    run_check_eq_true_iff (by simp), run_unless_eq_true_iff, run_bind]
  simp only [run_grow_fst, and_true]
  rfl

theorem build_eq (p : Pos) :
    build p = bounded 4 >>= fun extra => sink p p.y.toInt.toNat >>= settle (extra + 5) := by
  refine congrArg (bounded 4 >>= ·) (funext fun extra => ?_)
  refine congrArg (sink p p.y.toInt.toNat >>= ·) (funext fun base => ?_)
  simp only [settle, grow, crown, vines]

theorem stands_settle (hroom : p.HasRoom 3) (hheight : 5 ≤ height ∧ height ≤ 8)
    (hbuilt : ((settle height p).run s).1 = true) :
    1 ≤ p.y ∧ StandsIn Species.oak.trunk [(0, 0)] p height ((settle height p).run s).2.journal ∧
      ((settle height p).run s).2.journal.get (p.down 1) = Ground.dirt := by
  obtain ⟨⟨hlow, -, hhigh⟩, hclear, hsoil, hrun⟩ :=
    run_of_checks (looks_isClear p height) hbuilt rfl
  have hbelow : ¬InSpace p height (clearRadius p height) (p.down 1) := not_inSpace_down hlow
  have hin := Journal.inHeight_of_contains (by decide) hsoil
  have hheld := (holds_of_isClear (S := trunkReplaceable) (by decide) hclear).place
    (p := p.down 1) (b := Ground.dirt) (fun hin => absurd hin hbelow) false
  rw [hrun, run_bind]
  refine ⟨by lia, stands_grow hroom ⟨by lia, by lia⟩ hheight hheld ?_⟩
  exact s.settled_place_of_lt hin (by decide)

theorem stands_build (hroom : p.HasRoom 3) (hbuilt : ((build p).run s).1 = true) :
    let g := ((sink p p.y.toInt.toNat).run ((bounded 4).run s).2).1.y
    let h := ((bounded 4).run s).1 + 5
    (1 ≤ g ∧ 5 ≤ h) ∧
      StandsIn Species.oak.trunk [(0, 0)] ⟨p.x, g, p.z⟩ h ((build p).run s).2.journal ∧
      ((build p).run s).2.journal.get ⟨p.x, g - 1, p.z⟩ = Ground.dirt := by
  have hdraw := returns_run (bounded 4) s
  rw [build_eq, run_bind, run_bind] at hbuilt ⊢
  generalize (bounded 4).run s = extra at hdraw hbuilt ⊢
  have hreturns := returns_run (sink p p.y.toInt.toNat) extra.2
  generalize (sink p p.y.toInt.toNat).run extra.2 = sunk at hreturns hbuilt ⊢
  obtain ⟨⟨x, y, z⟩, s'⟩ := sunk
  obtain ⟨rfl, rfl⟩ : x = p.x ∧ z = p.z := (near_sink p _).2 _ hreturns
  have hrange := ((returns_bounded 4 extra.1).1 hdraw).1 (by decide)
  obtain ⟨hg, hstands⟩ := stands_settle (p := ⟨p.x, y, p.z⟩) ⟨hroom.x, hroom.z⟩ (by lia) hbuilt
  exact ⟨⟨hg, by lia⟩, hstands⟩

end SwampOak

/-! ## Full trunks -/

namespace Tree

/-- The level of the ground that a tree with a full trunk finds, and the height that it draws. -/
def stem? : Tree → Pos → Site → Option (Int32 × Int32)
  | swampOak, p, s =>
      let extra := (bounded 4).run s
      some (((SwampOak.sink p p.y.toInt.toNat).run extra.2).1.y, extra.1 + 5)
  | jungle _, p, s =>
      let tall := (bounded 7).run s
      ((Ground.below JungleTree.searchedSoils p).run tall.2).1.map fun g => (g, 4 + tall.1)
  | giantPine _, p, s =>
      let found := (Ground.below GiantPine.soils p).run s
      found.1.map fun g => (g, 13 + ((bounded 15).run found.2).1)
  | _, _, _ => none

/-- Swamp oaks, jungle trees and giant pines that were built stand on a full trunk, from the
ground that they have found up to their drawn height. A swamp oak stands on a column of oak
logs, a jungle tree on one of jungle logs, and a giant pine on four columns of spruce logs. A
trunk of a single column stands on dirt. -/
theorem built_tree_stands_on_full_trunk {t : Tree} {b : Block} {columns : List (Int32 × Int32)}
    (ht : t = swampOak ∧ b = ⟨.log, 0⟩ ∧ columns = [(0, 0)] ∨
      (∃ t', t = jungle t' ∧ b = ⟨.log, 3⟩ ∧ columns = [(0, 0)]) ∨
      ∃ t', t = giantPine t' ∧ b = ⟨.log, 1⟩ ∧ columns = [(0, 0), (0, 1), (1, 0), (1, 1)])
    {p : Pos} {s : Site} (hroom : t = swampOak → p.HasRoom 3)
    (hbuilt : ((t.build p).run s).1 = true) :
    let j := ((t.build p).run s).2.journal
    ∃ g h, t.stem? p s = some (g, h) ∧ (1 ≤ g ∧ 4 ≤ h) ∧
      (∀ d ∈ columns, ∀ i, 0 ≤ i → i < h →
        (⟨p.x + d.1, g + i, p.z + d.2⟩ : Pos).inHeight ∧
          j.get ⟨p.x + d.1, g + i, p.z + d.2⟩ = b) ∧
      (columns = [(0, 0)] → (⟨p.x, g - 1, p.z⟩ : Pos).inHeight ∧
        j.get ⟨p.x, g - 1, p.z⟩ = ⟨.dirt, 0⟩) := by
  intro j
  have hsoil {q : Pos} (hq : j.get q = Ground.dirt) : q.inHeight ∧ j.get q = ⟨.dirt, 0⟩ := by
    refine ⟨j.inHeight_of_idAt_ne ?_, hq⟩
    rw [j.idAt_eq, hq]
    decide
  rcases ht with ⟨rfl, rfl, rfl⟩ | ⟨t, rfl, rfl, rfl⟩ | ⟨t, rfl, rfl, rfl⟩
  · obtain ⟨⟨hg, hh⟩, hstands, hdirt⟩ := SwampOak.stands_build (hroom rfl) hbuilt
    exact ⟨_, _, rfl, ⟨hg, Int32.le_trans (by decide) hh⟩, hstands, fun _ => hsoil hdirt⟩
  · obtain ⟨g, hfound, hrange, hstands, hdirt⟩ := t.stands_build hbuilt
    refine ⟨g, _, ?_, hrange, hstands, fun _ => hsoil hdirt⟩
    simp only [stem?, hfound, Option.map_some]
  · obtain ⟨g, hfound, ⟨hg, hh⟩, hstands⟩ := t.stands_build hbuilt
    refine ⟨g, _, ?_, ⟨hg, Int32.le_trans (by decide) hh⟩, hstands, fun hsingle => ?_⟩
    · simp only [stem?, hfound, Option.map_some]
    · exact absurd hsingle (by decide)

/-- A swamp oak that has sunk through a layer of water, and a giant pine on grass. -/
theorem swamp_oak_and_giant_pine_stand :
    (let s : Site := ⟨.ofWorld (.ofLayers 0 [(.plain .dirt, 3), (.plain .stillWater, 1)]),
        .ofSeed 5, #[]⟩
      let p : Pos := ⟨8, 4, 8⟩
      let j := ((swampOak.build p).run s).2.journal
      p.HasRoom 3 ∧ ((swampOak.build p).run s).1 = true ∧ swampOak.stem? p s = some (3, 7) ∧
        (∀ i, 0 ≤ i → i < 7 → j.get ⟨8 + 0, 3 + i, 8 + 0⟩ = ⟨.log, 0⟩) ∧
        j.get ⟨8, 3 - 1, 8⟩ = ⟨.dirt, 0⟩) ∧
    (let s : Site := ⟨.ofWorld (.ofLayers 0 [(.plain .dirt, 3), (.plain .grass, 1)]),
        .ofSeed 3, #[]⟩
      let t : Tree := giantPine ⟨true⟩
      let p : Pos := ⟨8, 6, 8⟩
      let j := ((t.build p).run s).2.journal
      ((t.build p).run s).1 = true ∧ t.stem? p s = some (4, 27) ∧
        ∀ d ∈ [((0 : Int32), (0 : Int32)), (0, 1), (1, 0), (1, 1)], ∀ i, 0 ≤ i → i < 27 →
          j.get ⟨8 + d.1, 4 + i, 8 + d.2⟩ = ⟨.log, 1⟩) := by
  constructor
  · intro s p j
    have hroom : p.HasRoom 3 := ⟨⟨by decide, by decide⟩, ⟨by decide, by decide⟩⟩
    have hbuilt : ((swampOak.build p).run s).1 = true := by
      rw [Tree.build, SwampOak.build_eq, run_bind, run_bind, SwampOak.settle_eq_true_iff]
      decide +kernel
    have hstem : swampOak.stem? p s = some (3, 7) := by decide +kernel
    obtain ⟨g, h, hgh, -, hlogs, hsoil⟩ := built_tree_stands_on_full_trunk (t := swampOak)
      (.inl ⟨rfl, rfl, rfl⟩) (fun _ => hroom) hbuilt
    obtain ⟨rfl, rfl⟩ : (3 : Int32) = g ∧ (7 : Int32) = h :=
      Prod.mk.inj (Option.some.inj (hstem.symm.trans hgh))
    exact ⟨hroom, hbuilt, hstem, fun i hlow hhigh => (hlogs (0, 0) (by decide) i hlow hhigh).2,
      (hsoil rfl).2⟩
  · intro s t p j
    have hfound : ((Ground.below GiantPine.soils p).run s).1 = some 4 := by decide +kernel
    have hbuilt : ((t.build p).run s).1 = true := by
      rw [Tree.build, GiantPine.build_eq, run_bind, hfound, GiantPine.settle_eq_true_iff]
      -- `List.all` runs over the four columns, where a decision over all pairs would not end
      exact ⟨by decide, List.all_eq_true.1 (by decide +kernel)⟩
    have hstem : t.stem? p s = some (4, 27) := by decide +kernel
    have hpine : t ≠ swampOak := fun hoak => Tree.noConfusion hoak
    obtain ⟨g, h, hgh, -, hlogs, -⟩ := built_tree_stands_on_full_trunk (t := t)
      (.inr (.inr ⟨_, rfl, rfl, rfl⟩)) (fun hoak => absurd hoak hpine) hbuilt
    obtain ⟨rfl, rfl⟩ : (4 : Int32) = g ∧ (27 : Int32) = h :=
      Prod.mk.inj (Option.some.inj (hstem.symm.trans hgh))
    exact ⟨hbuilt, hstem, fun d hd i hlow hhigh => (hlogs d hd i hlow hhigh).2⟩

end Tree

end VoxelFeatures
