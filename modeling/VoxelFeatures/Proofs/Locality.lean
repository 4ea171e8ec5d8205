import VoxelFeatures.Proofs.NearFeatures
import VoxelFeatures.Proofs.NearTrees

/-!
# Features are local

A feature with a reach depends on the columns within its reach alone, and
changes no others. Two worlds that hold the same ids there cannot be told apart
by it: it succeeds in both or in neither, draws the same, and makes the same
writes. Chunks that are far enough from each other can so be decorated in any
order, or at once.

Distances are taken around the ends of the coordinates first (`Pos.Near`). A run
that does not lead across these ends is as local by the distances of the
integers (`Pos.Within`).
-/

namespace VoxelFeatures

/-- How far a tree acts from its origin, along either horizontal axis. The large
trees with drawn branches and limbs are left open. -/
def Tree.reach? : Tree → Option Nat
  | small _ | pine | jungle _ | jungleBush _ => some 2
  | spruce => some 3
  | swampOak | giantPine _ => some 4
  | acacia | darkOak => some 6
  | largeOak _ | giantJungle => none

/-- How far a feature acts from its origin, along either horizontal axis. Veins,
ice and deposits are left open. -/
def Feature.reach? : Feature → Option Nat
  | tree t => t.reach?
  | spring _ => some 1
  | mushroom _ => some 3
  | dungeon | sugarCanes => some 4
  | bush _ | deadBush | tallGrass _ | pumpkin | cactus | waterLily | tallPlant _ | patch _ => some 7
  | lake _ | vines => some 8
  | vein _ | icePath _ | iceSpike | clay _ | sand _ | boulder _ => none

theorem Tree.near_build {t : Tree} {r : Nat} (hr : t.reach? = some r) (p : Pos) :
    (t.build p).Only (Act.In (p.Near r)) := by
  cases t with
  | small t =>
      cases hr
      exact t.near_build p
  | pine =>
      cases hr
      exact Pine.near_build p
  | spruce =>
      cases hr
      exact Spruce.near_build p
  | acacia =>
      cases hr
      exact Acacia.near_build p
  | darkOak =>
      cases hr
      exact DarkOak.near_build p
  | swampOak =>
      cases hr
      exact SwampOak.near_build p
  | jungle t =>
      cases hr
      exact t.near_build p
  | giantPine t =>
      cases hr
      exact t.near_build p
  | jungleBush b =>
      cases hr
      exact b.near_build p
  | largeOak t => cases hr
  | giantJungle => cases hr

theorem Feature.near_build {f : Feature} {r : Nat} (hr : f.reach? = some r) (p : Pos) :
    (f.build p).Only (Act.In (p.Near r)) := by
  cases f with
  | tree t => exact t.near_build hr p
  | spring fluid =>
      cases hr
      exact Spring.near_build fluid p
  | mushroom kind =>
      cases hr
      exact HugeMushroom.near_build kind p
  | dungeon =>
      cases hr
      exact Dungeon.near_build p
  | sugarCanes =>
      cases hr
      exact Stalk.near_sugarCanes p
  | bush plant =>
      cases hr
      exact Patch.near_bush plant p
  | deadBush =>
      cases hr
      exact Patch.near_deadBush p
  | tallGrass data =>
      cases hr
      exact Patch.near_tallGrass data p
  | pumpkin =>
      cases hr
      exact Patch.near_pumpkin p
  | cactus =>
      cases hr
      exact Stalk.near_cactus p
  | waterLily =>
      cases hr
      exact Patch.near_waterLily p
  | tallPlant plant =>
      cases hr
      exact plant.near_build p
  | patch id =>
      cases hr
      exact Patch.near_turned id p
  | lake fluid =>
      cases hr
      exact LakeBasin.near_build fluid p
  | vines =>
      cases hr
      exact Vines.near_build p
  | vein spec => cases hr
  | icePath path => cases hr
  | iceSpike => cases hr
  | clay disc => cases hr
  | sand disc => cases hr
  | boulder b => cases hr

namespace Pos

/-- The column of `q` is within `r` of the column of `p`, by their coordinates. -/
def Within (r : Nat) (p q : Pos) : Prop :=
  (q.x.toInt - p.x.toInt).natAbs ≤ r ∧ (q.z.toInt - p.z.toInt).natAbs ≤ r

/-- The way from `p` to `q` does not lead across the ends of the coordinates: the
differences are those of the integers. -/
def Direct (p q : Pos) : Prop :=
  (q.x - p.x).toInt = q.x.toInt - p.x.toInt ∧ (q.z - p.z).toInt = q.z.toInt - p.z.toInt

variable {p q : Pos} {r : Nat}

theorem Near.within (h : p.Near r q) (hdirect : p.Direct q) : p.Within r q := by
  rw [Within, ← hdirect.1, ← hdirect.2]
  exact h

/-- At some distance from the ends of the coordinates every short way is direct. -/
theorem Near.direct (h : p.Near r q)
    (hx : -2147483648 + r ≤ p.x.toInt ∧ p.x.toInt + r < 2147483648)
    (hz : -2147483648 + r ≤ p.z.toInt ∧ p.z.toInt + r < 2147483648) : p.Direct q :=
  ⟨toInt_sub_of_gap_le hx h.1, toInt_sub_of_gap_le hz h.2⟩

end Pos

namespace Feature

variable {f : Feature} {r : Nat} {p : Pos} {s t : Site}

/-- No run of a feature leads across the ends of the coordinates from an origin
that is farther from them than the reach. -/
theorem acts_direct (hr : f.reach? = some r)
    (hx : -2147483648 + r ≤ p.x.toInt ∧ p.x.toInt + r < 2147483648)
    (hz : -2147483648 + r ≤ p.z.toInt ∧ p.z.toInt + r < 2147483648) (s : Site) :
    ∀ a ∈ (f.build p).acts s, a.In p.Direct :=
  ((near_build hr p).mono fun _ ha => ha.mono fun _ hq => hq.direct hx hz).acts s

/-- A feature depends on the columns within its reach alone, and changes no
others. If its run leads across no end of the coordinates, and another site has
the same stream and holds the same ids in these columns, then the run there has
the same result, ends with the same stream, performs the same acts in the same
order, and so makes the same writes. All that it looks at and writes to is in
these columns. -/
theorem build_within_reach (hr : f.reach? = some r)
    (hdirect : ∀ a ∈ (f.build p).acts s, a.In p.Direct) (hstream : s.stream = t.stream)
    (hids : ∀ q, p.Within r q → s.journal.idAt q = t.journal.idAt q) :
    ((f.build p).run s).1 = ((f.build p).run t).1 ∧
      ((f.build p).run s).2.stream = ((f.build p).run t).2.stream ∧
      (f.build p).acts s = (f.build p).acts t ∧
      (∀ a ∈ (f.build p).acts s, a.In (p.Within r)) ∧
      Site.AddAlike (p.Within r) s ((f.build p).run s).2 t ((f.build p).run t).2 := by
  have hwithin : ∀ a ∈ (f.build p).acts s, a.In (p.Within r) := fun a ha =>
    ((near_build hr p).acts s a ha).imp₂ (fun _ hnear hq => hnear.within hq) (hdirect a ha)
  have hagree : s.AgreeOn (p.Within r) t := ⟨hstream, hids⟩
  obtain ⟨hresult, hafter, hadded⟩ := Build.run_agreeOn hwithin hagree
  exact ⟨hresult, hafter.stream, Build.acts_agreeOn hwithin hagree, hwithin, hadded⟩

/-- A dark oak does not see a wall seven cells beside it. -/
theorem dark_oak_beside_wall :
    let w := World.ofLayers 3 [(.plain .dirt, 63), (.plain .grass, 1)]
    let s : Site := ⟨.ofWorld w, .ofSeed 11, #[]⟩
    let t : Site := ⟨.ofWorld (w.set ⟨-7, 65, 8⟩ (.plain .stone)), .ofSeed 11, #[]⟩
    let oak := build (.tree .darkOak) ⟨0, 64, 8⟩
    (oak.run s).1 = (oak.run t).1 ∧
      Site.AddAlike (Pos.Within 6 ⟨0, 64, 8⟩) s (oak.run s).2 t (oak.run t).2 := by
  intro w s t oak
  have hdirect := acts_direct (f := .tree .darkOak) (p := ⟨0, 64, 8⟩) rfl
    (by decide) (by decide) s
  obtain ⟨hresult, -, -, -, hadded⟩ := build_within_reach (t := t) rfl hdirect rfl fun q hq => by
    have hne : q ≠ ⟨-7, 65, 8⟩ := by
      rintro rfl
      exact absurd hq.1 (by decide)
    exact ((w.idAt_set _ q _).trans (if_neg fun h => hne h.2)).symm
  exact ⟨hresult, hadded⟩

end Feature

end VoxelFeatures
