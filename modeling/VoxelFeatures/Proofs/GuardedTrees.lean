import VoxelFeatures.Feature.Basic
import VoxelFeatures.Proofs.Retention

/-!
# Trees that look before they place

Small trees, dark oaks, pines and spruces look at a cell before each placement. A
`Guard` says what they have to find there: soil in the cells right below the tree, some
ids where leaves go and some where logs go. Leaves and logs may come to the same cell,
and a cell may be written more than once, but the first write at a cell finds the block
that was there at first. So a block that is not on the lists is never replaced, neither
by the first write at its cell nor by a later one.
-/

namespace VoxelFeatures

/-- What a tree has to find before it places a block. -/
structure Guard where
  /-- The cells below an origin whose soil the tree may turn. -/
  soilCells : Pos → List Pos
  leaf : Block
  /-- What leaves may replace. -/
  leafOver : List BlockId
  log : Block
  /-- What logs may replace. -/
  logOver : List BlockId

namespace Guard

/-- The blocks that trees grow on. -/
def soils : List BlockId := [.grass, .dirt, .farmland, .podzol]

/-- The write turns soil below the origin to dirt. -/
def TurnsSoil (g : Guard) (p : Pos) (w : Write) : Prop :=
  w.pos ∈ g.soilCells p ∧ w.block = Ground.dirt ∧ w.before.id ∈ soils

/-- The write turns soil, or it is of a leaf or a log where the guard allows that. -/
def Allows (g : Guard) (p : Pos) (w : Write) : Prop :=
  g.TurnsSoil p w ∨ (w.block = g.leaf ∧ w.before.id ∈ g.leafOver) ∨
    (w.block = g.log ∧ w.before.id ∈ g.logOver)

/-- What small trees have to find, by their species. -/
def small (s : Species) : Guard where
  soilCells p := [p.down 1]
  leaf := s.leaf
  leafOver := [.air, .leaves, .vine]
  log := s.trunk
  logOver := [.air, .leaves, .vine, .leaves2]

def darkOak : Guard where
  soilCells p := DarkOak.square (p.down 1)
  leaf := Species.darkOak.leaf
  leafOver := [.air]
  log := Species.darkOak.trunk
  logOver := [.air, .leaves, .leaves2, .log, .wood2, .sapling, .vine]

def pine : Guard where
  soilCells p := [p.down 1]
  leaf := Species.spruce.leaf
  leafOver := [.air, .leaves, .snowLayer]
  log := Species.spruce.trunk
  logOver := [.air, .leaves, .snowLayer]

def spruce : Guard where
  soilCells p := [p.down 1]
  leaf := Species.spruce.leaf
  leafOver := [.air, .leaves, .snowLayer]
  log := Species.spruce.trunk
  logOver := [.air, .sapling, .log, .leaves, .snowLayer, .leaves2, .wood2]

end Guard

/-- The guard of a tree, if it looks before all its placements. -/
def Tree.guard? : Tree → Option Guard
  | small t => some (.small t.species)
  | darkOak => some .darkOak
  | pine => some .pine
  | spruce => some .spruce
  | largeOak _ | acacia | swampOak | jungle _ | giantJungle | giantPine _ | jungleBush _ => none

namespace Guard

open Build

variable {α : Type} {g : Guard} {p q : Pos} {S : BlockSet}

/-! ## Placements under a guard -/

theorem mem_of_contains {ids : List BlockId} {id : BlockId}
    (h : (BlockSet.ofList ids).contains id) : id ∈ ids := by
  rw [BlockSet.contains_ofList] at h
  exact of_decide_eq_true h

variable (g p q)

theorem allows_leaf : (replace (.ofList g.leafOver) q g.leaf).Adds (g.Allows p) :=
  adds_replace fun _ hbefore => .inr (.inl ⟨rfl, mem_of_contains hbefore⟩)

theorem allows_log : (replace (.ofList g.logOver) q g.log).Adds (g.Allows p) :=
  adds_replace fun _ hbefore => .inr (.inr ⟨rfl, mem_of_contains hbefore⟩)

variable {g p q}

/-- Soil that was found is turned, after some draws at most. -/
theorem allows_soil (hq : q ∈ g.soilCells p) {s : Site} (hsoil : s.journal.idAt q ∈ soils)
    {f : Unit → Build α} (hf : (f ()).Adds (g.Allows p)) :
    s.Adds (g.Allows p) ((place q Ground.dirt >>= f).run s).2 :=
  adds_place_bind (fun _ hbefore => .inl ⟨hq, rfl, hbefore ▸ hsoil⟩) hf

end Guard

namespace Build

variable {α : Type} {P : Write → Prop}

/-- A draw that stands between a look and the placement which relies on it. -/
theorem adds_bounded_bind {bound : Int32} {f : Int32 → Build α} {r s : Site}
    (hf : ∀ u t, t.journal = s.journal → r.Adds P ((f u).run t).2) :
    r.Adds P ((bounded bound >>= f).run s).2 := by
  rw [run_bind]
  exact hf _ _ rfl

end Build

open Build

/-! ## The trees -/

namespace SmallTree

theorem allows_crownLayer (s : Species) (p : Pos) (top y : Int32) :
    (crownLayer s.leaf p top y).Adds ((Guard.small s).Allows p) := by
  refine .forSquare fun x z => (adds_of_inspects (by simp)).bind fun leaf => ?_
  exact .ite (Guard.allows_leaf (.small s) p _) (adds_done ())

theorem allows_growTrunk (s : Species) (p : Pos) (height : Int32) :
    (growTrunk trunkReplaceable s.trunk p height).Adds ((Guard.small s).Allows p) :=
  .forM_span fun _ => Guard.allows_log (.small s) p _

theorem allows_build (t : SmallTree) (p : Pos) :
    (t.build p).Adds ((Guard.small t.species).Allows p) := by
  refine (adds_of_inspects (by simp)).bind fun height => ?_
  refine (adds_of_inspects (by simp)).bind fun clear => .ite ?_ (adds_done false)
  refine adds_isIn (fun s hsoil => ?_) (adds_done false)
  refine Guard.allows_soil (g := .small t.species) (List.mem_singleton_self _)
    (List.mem_append_left [BlockId.podzol] (Guard.mem_of_contains hsoil)) ?_
  refine (Adds.forM_span fun y => allows_crownLayer t.species p _ y).bind fun _ => ?_
  exact (allows_growTrunk t.species p height).bind fun _ => adds_done true

end SmallTree

namespace DarkOak

variable (p : Pos)

theorem allows_placeLog (q : Pos) : (placeLog q).Adds (Guard.darkOak.Allows p) :=
  Guard.allows_log .darkOak p q

theorem allows_placeLeaf (q : Pos) : (placeLeaf q).Adds (Guard.darkOak.Allows p) := by
  refine adds_isAir (fun s hair => s.adds_place q _ false fun _ => ?_) (adds_done ())
  rw [s.journal.idAt_eq q] at hair
  exact .inr (.inl ⟨rfl, List.mem_singleton.2 hair⟩)

theorem allows_turnSoil {q : Pos} (hq : q ∈ square (p.down 1)) :
    (replace turnedSoils q Ground.dirt).Adds (Guard.darkOak.Allows p) := by
  refine adds_replace fun before hbefore => .inl ⟨hq, rfl, ?_⟩
  rcases List.mem_pair.1 (Guard.mem_of_contains hbefore) with h | h
  all_goals
    rw [h]
    decide

theorem allows_trunk (towards : Pos) (start height : Int32) (t : Trunk) :
    ((Span.halfOpen 0 height).foldM (trunkLayer p towards start) t).Adds
      (Guard.darkOak.Allows p) := by
  refine .foldM_span (fun t dy => ?_) t
  refine (adds_of_inspects (by simp)).bind fun free => .ite ?_ (adds_done _)
  exact (Adds.forM fun q _ => allows_placeLog p q).bind fun _ => adds_done _

theorem allows_quarterLeaves (c : Pos) (dx dz : Int32) :
    (quarterLeaves c dx dz).Adds (Guard.darkOak.Allows p) :=
  (allows_placeLeaf p _).bind fun _ => (allows_placeLeaf p _).bind fun _ =>
    (allows_placeLeaf p _).bind fun _ => allows_placeLeaf p _

theorem allows_sideLayers (top : Pos) : (sideLayers top).Adds (Guard.darkOak.Allows p) := by
  refine .forSquare fun dx dz => (allows_quarterLeaves p _ dx dz).bind fun _ => ?_
  exact .ite (allows_quarterLeaves p _ dx dz) (adds_done ())

theorem allows_middleLayer (top : Pos) : (middleLayer top).Adds (Guard.darkOak.Allows p) :=
  .forSquare fun _ _ => .ite (allows_placeLeaf p _) (adds_done ())

theorem allows_logLeaves (c : Pos) : (logLeaves c).Adds (Guard.darkOak.Allows p) := by
  refine (Adds.forOffsets fun _ _ => allows_placeLeaf p _).bind fun _ => ?_
  exact .forOffsets fun _ _ => .ite (adds_done ()) (allows_placeLeaf p _)

theorem allows_hang (top : Pos) (dx dz : Int32) :
    (hang p top dx dz).Adds (Guard.darkOak.Allows p) := by
  refine .ite ((adds_bounded 3).bind fun skip => .ite (adds_done ()) ?_) (adds_done ())
  refine (adds_bounded 3).bind fun more => ?_
  refine (Adds.forM_span fun i => allows_placeLog p _).bind fun _ => ?_
  exact allows_logLeaves p _

theorem allows_build : (build p).Adds (Guard.darkOak.Allows p) := by
  refine (adds_bounded 3).bind fun first => (adds_bounded 2).bind fun second => ?_
  refine .ite (adds_done false) ?_
  refine (adds_of_inspects (by simp)).bind fun soil => .ite ?_ (adds_done false)
  refine (adds_of_inspects (by simp)).bind fun clear => .ite ?_ (adds_done false)
  refine (Adds.forM fun q hq => allows_turnSoil p hq).bind fun _ => ?_
  refine (adds_bounded 4).bind fun towards => (adds_bounded 4).bind fun start => ?_
  refine (adds_bounded 3).bind fun bends => (allows_trunk p _ _ _ _).bind fun t => ?_
  refine (allows_sideLayers p _).bind fun _ => (adds_of_inspects (by simp)).bind fun cap => ?_
  refine .ite ((Adds.forM fun q _ => allows_placeLeaf p q).bind fun _ => ?_) ?_
  all_goals
    refine (allows_middleLayer p _).bind fun _ => ?_
    exact (Adds.forSquare fun dx dz => allows_hang p _ dx dz).bind fun _ => adds_done true

end DarkOak

namespace Conifer

/-- Pines and spruces have the same leaves. -/
theorem allows_leafLayer {g : Guard} (hleaf : g.leaf = Species.spruce.leaf)
    (hover : g.leafOver = [.air, .leaves, .snowLayer]) (p c : Pos) (r : Int32) :
    (leafLayer c r).Adds (g.Allows p) := by
  refine .forOffsets fun dx dz => .ite ?_ (adds_done ())
  have hplaced := Guard.allows_leaf g p (c.shift dx 0 dz)
  rwa [hleaf, hover] at hplaced

end Conifer

namespace Pine

theorem allows_crown (p : Pos) (bottom top : Int32) :
    (crown p bottom top).Adds (Guard.pine.Allows p) := by
  refine (Adds.foldM_span (fun r y => ?_) 0).bind fun _ => adds_done ()
  exact (Conifer.allows_leafLayer rfl rfl p _ r).bind fun _ => adds_done _

theorem allows_trunk (p : Pos) (height dy : Int32) (n : Nat) :
    (trunk p height dy n).Adds (Guard.pine.Allows p) := by
  induction n generalizing dy with
  | zero => exact (adds_bounded 3).bind fun _ => adds_done ()
  | succ n ih =>
      refine (adds_bounded 3).bind fun less => .ite ?_ (adds_done ())
      exact (Guard.allows_log .pine p _).bind fun _ => ih _

theorem allows_build (p : Pos) : (build p).Adds (Guard.pine.Allows p) := by
  refine (adds_bounded 5).bind fun more => (adds_bounded 2).bind fun short => ?_
  refine .ite (adds_done false) fun s => ?_
  generalize more + 7 = height
  have hgrown : (do
      crown p (p.y + (height - short - 3)) (p.y + height)
      trunk p height 0 height.toInt.toNat
      return true : Build Bool).Adds (Guard.pine.Allows p) :=
    (allows_crown p _ _).bind fun _ => (allows_trunk p _ _ _).bind fun _ => adds_done true
  rw [run_bind, run_look]
  split
  · split
    · rename_i hgrass
      refine Guard.allows_soil (g := .pine) (List.mem_singleton_self _) ?_ hgrown
      have hgrass : s.journal.idAt (p.down 1) = .grass := hgrass
      rw [hgrass]
      decide
    · exact hgrown s
  · exact .nil rfl

end Pine

namespace Spruce

theorem allows_crown (p : Pos) (height layers limit first : Int32) :
    (crown p height layers limit first).Adds (Guard.spruce.Allows p) := by
  refine (Adds.foldM_span (fun g dy => ?_) _).bind fun _ => adds_done ()
  exact (Conifer.allows_leafLayer rfl rfl p _ g.radius).bind fun _ => adds_done _

theorem allows_growTrunk (p : Pos) (height : Int32) :
    (growTrunk Species.treeOverridable Species.spruce.trunk p height).Adds
      (Guard.spruce.Allows p) :=
  .forM_span fun _ => Guard.allows_log .spruce p _

theorem allows_build (p : Pos) : (build p).Adds (Guard.spruce.Allows p) := by
  refine adds_isIn (fun s hsoil => ?_) (adds_done false)
  have hsublist : List.Sublist [BlockId.grass, .dirt, .podzol] Guard.soils := by decide
  have hfertile : s.journal.idAt (p.down 1) ∈ Guard.soils :=
    hsublist.subset (Guard.mem_of_contains hsoil)
  have hgrown (more short wide less : Int32) : (do
      growTrunk Species.spruce.overridable Species.spruce.trunk p (more + 6 - less)
      let first ← bounded 2
      crown p (more + 6) (more + 6 - (1 + short)) (2 + wide) first
      return true : Build Bool).Adds (Guard.spruce.Allows p) := by
    refine (allows_growTrunk p _).bind fun _ => (adds_bounded 2).bind fun first => ?_
    exact (allows_crown p _ _ _ _).bind fun _ => adds_done true
  -- the draws leave the soil as it was found
  refine adds_bounded_bind fun more s₁ h₁ => adds_bounded_bind fun short s₂ h₂ => ?_
  refine adds_bounded_bind fun wide s₃ h₃ => adds_bounded_bind fun less s₄ h₄ => ?_
  have hjournal : s₄.journal = s.journal := by rw [h₄, h₃, h₂, h₁]
  refine (Site.Adds.nil hjournal).trans ?_
  rw [← hjournal] at hfertile
  exact Guard.allows_soil (g := .spruce) (List.mem_singleton_self _) hfertile
    (hgrown more short wide less)

end Spruce

namespace Tree

theorem allows_build {t : Tree} {g : Guard} (h : t.guard? = some g) (p : Pos) :
    (t.build p).Adds (g.Allows p) := by
  cases t with
  | small t =>
      cases h
      exact t.allows_build p
  | darkOak =>
      cases h
      exact DarkOak.allows_build p
  | pine =>
      cases h
      exact Pine.allows_build p
  | spruce =>
      cases h
      exact Spruce.allows_build p
  | _ => cases h

/-- Guarded leaves and logs replace nothing but vines and what all trees may replace. -/
theorem overridable_of_mem_over {t : Tree} {g : Guard} (h : t.guard? = some g) {id : BlockId}
    (hid : id ∈ g.leafOver ∨ id ∈ g.logOver) :
    Species.treeOverridable.contains id ∨ id = .vine := by
  have hover (ids : List BlockId)
      (hids : ∀ i ∈ ids, Species.treeOverridable.contains i = true ∨ i = .vine) (hmem : id ∈ ids) :=
    hids id hmem
  cases t with
  | small t =>
      cases h
      exact hid.elim (hover [.air, .leaves, .vine] (by decide))
        (hover [.air, .leaves, .vine, .leaves2] (by decide))
  | darkOak =>
      cases h
      exact hid.elim (hover _ (by decide)) (hover _ (by decide))
  | pine =>
      cases h
      exact hid.elim (hover _ (by decide)) (hover _ (by decide))
  | spruce =>
      cases h
      exact hid.elim (hover _ (by decide)) (hover _ (by decide))
  | _ => cases h

/-- What a guarded tree does to other blocks. Each of its writes turns soil right below
the tree, or is of a leaf or a log in the place of an id that the guard lists. A cell
whose soil was not turned keeps its block, metadata included, if that is neither a vine
nor one of the blocks that trees may grow over. -/
theorem guarded_tree_keeps_other_blocks {t : Tree} {g : Guard} (h : t.guard? = some g) (p : Pos)
    {s : Site} (hs : s.journal.world.Made) :
    let u := ((t.build p).run s).2
    ∃ ws, u.journal.writes.toList = s.journal.writes.toList ++ ws ∧
      (∀ w ∈ ws, g.Allows p w) ∧
      ∀ q, (∀ w ∈ ws, w.pos = q → ¬g.TurnsSoil p w) →
        ¬Species.treeOverridable.contains (s.journal.idAt q) → s.journal.idAt q ≠ .vine →
        u.journal.get q = s.journal.get q := by
  intro u
  obtain ⟨ws, hgrows, hws⟩ := grows_of_adds (allows_build h p s) hs.packed
  refine ⟨ws, hgrows.writes, hws, fun q hsoil hforeign hvine => ?_⟩
  have hair : s.journal.idAt q ≠ .air := fun hair => hforeign (hair ▸ by decide)
  refine hgrows.kept q hair fun w hw hq hsame => ?_
  rcases hws w hw with hturns | ⟨-, hover⟩ | ⟨-, hover⟩
  · exact hsoil w hw hq hturns
  · exact (overridable_of_mem_over h (.inl (hsame ▸ hover))).elim hforeign hvine
  · exact (overridable_of_mem_over h (.inr (hsame ▸ hover))).elim hforeign hvine

/-- A spruce grows around a chest that stands among its lower branches. -/
theorem spruce_keeps_chest :
    let w := (World.ofLayers 0 [(.plain .dirt, 1), (.plain .grass, 1)]).edit
      [.place ⟨1, 4, 0⟩ ⟨.chest, 3⟩ false]
    let s : Site := ⟨.ofWorld w, .ofSeed 11, #[]⟩
    guard? .spruce = some .spruce ∧ s.journal.world.Made ∧
      ((build .spruce ⟨0, 2, 0⟩).run s).2.journal.get ⟨1, 4, 0⟩ = ⟨.chest, 3⟩ := by
  intro w s
  have hmade : s.journal.world.Made := ⟨0, _, _, rfl⟩
  refine ⟨rfl, hmade, ?_⟩
  obtain ⟨ws, -, -, hkept⟩ := guarded_tree_keeps_other_blocks (t := .spruce) rfl ⟨0, 2, 0⟩ hmade
  have hchest : s.journal.get ⟨1, 4, 0⟩ = ⟨.chest, 3⟩ := by decide +kernel
  have hid : s.journal.idAt ⟨1, 4, 0⟩ = .chest := by rw [s.journal.idAt_eq, hchest]
  refine (hkept ⟨1, 4, 0⟩ (fun w _ hw hsoil => ?_) ?_ ?_).trans hchest
  · have hcell : w.pos = (⟨0, 1, 0⟩ : Pos) := List.mem_singleton.1 hsoil.1
    rw [hw] at hcell
    exact absurd hcell (by decide)
  · rw [hid]
    decide
  · rw [hid]
    decide

end Tree

end VoxelFeatures
