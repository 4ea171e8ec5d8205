import VoxelFeatures.Proofs.Additions
import VoxelFeatures.Proofs.Agreement
import VoxelFeatures.Proofs.Distance
import VoxelFeatures.Proofs.Walks

/-!
# What trees grow over

Most trees look before they place. Some stamp parts of themselves on whatever
is there: logs of trunks and branches, and the crown of the swamp oak. So they do
destroy stone, or a chest, but in one way only. `Write.Spares foot b` leaves three kinds
of writes: the soil right below the foot of the tree turns to dirt, a block is replaced
that trees may grow over, or the write is of `b`, the one block that the tree places
without a look.

Acacias and swamp oaks have a check to stand on. `Site.Holds` says that the space that
was asked about holds blocks that trees may grow over. It lasts as long as only such
blocks are laid, and all blocks of a tree are such blocks. So within that space these
trees destroy nothing. The bent trunk and the branches of an acacia leave it.
-/

namespace VoxelFeatures

/-- The bits of a set are among those of another one. -/
def BlockSet.Within (S T : BlockSet) : Prop :=
  ∀ i, S.words.get i &&& T.words.get i = S.words.get i

instance (S T : BlockSet) : Decidable (S.Within T) :=
  inferInstanceAs (Decidable (∀ i, S.words.get i &&& T.words.get i = S.words.get i))

theorem BlockSet.contains_mono {S T : BlockSet} (h : S.Within T) {id : BlockId}
    (hid : S.contains id) : T.contains id := by
  have hword : S.words[wordOf id] &&& T.words[wordOf id] = S.words[wordOf id] := h (wordOf id)
  rw [contains_eq_getLsbD, ← hword, UInt64.toBitVec_and, BitVec.getLsbD_and,
    Bool.and_eq_true] at hid
  rw [contains_eq_getLsbD]
  exact hid.2

/-- A cell that holds a block of a set without air is within the height. -/
theorem Journal.inHeight_of_contains {S : BlockSet} (hS : S.contains .air = false) {j : Journal}
    {p : Pos} (h : S.contains (j.idAt p)) : p.inHeight := by
  refine j.inHeight_of_idAt_ne fun hair => ?_
  rw [hair, hS] at h
  cases h

/-! ## Checks -/

/-- The act looks. -/
def Act.Looks : Act → Prop
  | look _ => True
  | draw _ | place .. | report _ => False

@[simp] theorem Act.looks_look (p : Pos) : (Act.look p).Looks := trivial

namespace Build

variable {α ι : Type}

/-- A program that only looks leaves the site as it is. -/
theorem Only.run_looks {m : Build α} (h : m.Only Act.Looks) (s : Site) : (m.run s).2 = s := by
  refine Only.run (R := fun s t => t = s) (fun _ => rfl) (fun _ _ _ hst htu => htu.trans hst)
    (fun a s ha => ?_) h s
  cases a with
  | look p => rfl
  | draw d => exact ha.elim
  | place p b notify => exact ha.elim
  | report n => exact ha.elim

/-- A check passes exactly if it passes for every item. -/
theorem run_allM_iff {l : List ι} {f : ι → Build Bool} {s : Site}
    (hf : ∀ i ∈ l, (f i).Only Act.Looks) :
    ((l.allM f).run s).1 = true ↔ ∀ i ∈ l, ((f i).run s).1 = true := by
  induction l with
  | nil => simp [List.allM]
  | cons i l ih =>
      rw [List.forall_mem_cons] at hf ⊢
      rw [List.allM, run_bind, hf.1.run_looks]
      cases hi : ((f i).run s).1 with
      | false => simp
      | true => simpa using ih hf.2

theorem run_allM_span_iff {r : Span} {f : Int32 → Build Bool} {s : Site}
    (hf : ∀ i ∈ r.toList, (f i).Only Act.Looks) :
    ((r.allM f).run s).1 = true ↔ ∀ i ∈ r.toList, ((f i).run s).1 = true := by
  rw [Span.allM_eq]
  exact run_allM_iff hf

/-- A check that passes has passed for every word. -/
theorem run_allM_span_true {r : Span} {f : Int32 → Build Bool} {s : Site}
    (hf : ∀ i ∈ r.toList, (f i).Only Act.Looks) (h : ((r.allM f).run s).1 = true) :
    ∀ i ∈ r.toList, ((f i).run s).1 = true :=
  (run_allM_span_iff hf).1 h

end Build

/-! ## Writes that spare other blocks -/

/-- What every tree may grow over: the blocks of `treeOverridable`, vines, tall grass
and water. -/
def Tree.overgrown : BlockSet :=
  (((Species.treeOverridable.insert .vine).insert .tallGrass).insert .water).insert .stillWater

/-- The write turns soil to dirt. -/
def Write.TurnsSoil (w : Write) : Prop := w.block.id = .dirt ∧ Ground.soils.contains w.before.id

/-- The write turns soil in the layer right below `foot`, grows over what trees may grow
over, or places `b`. -/
def Write.Spares (foot : Int32) (b : Block) (w : Write) : Prop :=
  w.TurnsSoil ∧ w.pos.y = foot - 1 ∨ Tree.overgrown.contains w.before.id ∨ w.block = b

/-- The write fills a cell of air. -/
def Write.Fills (w : Write) : Prop := w.before.id = .air

theorem Write.Fills.spares {foot : Int32} {b : Block} {w : Write} (h : w.Fills) :
    w.Spares foot b := by
  have hair : w.before.id = .air := h
  refine .inr (.inl ?_)
  rw [hair]
  decide

namespace Tree

/-- The layer in which the trunk of a tree starts: that of the origin, if the tree does not
search for its ground, and that of the origin too if the search has found none. -/
def foot : Tree → Pos → Site → Int32
  | swampOak, p, s => ((SwampOak.sink p p.y.toInt.toNat).run ((Build.bounded 4).run s).2).1.y
  | jungle _, p, s =>
      ((Ground.below JungleTree.searchedSoils p).run ((Build.bounded 7).run s).2).1.getD p.y
  | giantPine _, p, s => ((Ground.below GiantPine.soils p).run s).1.getD p.y
  | jungleBush _, p, s => (((Build.sink p p.y.toInt.toNat).run s).1.up 1).y
  | _, p, _ => p.y

/-- The block that a tree places without a look at what it replaces. -/
def bold? : Tree → Option Block
  | acacia => some Species.acacia.trunk
  | swampOak => some Species.oak.leaf
  | jungle _ => some Species.jungle.trunk
  | giantJungle => some Species.jungle.trunk
  | giantPine _ => some Species.spruce.trunk
  | jungleBush b => some b.log
  | small _ | largeOak _ | darkOak | pine | spruce => none

end Tree

namespace Build

variable {α : Type} {foot : Int32} {b : Block} {S : BlockSet} {p : Pos}

theorem spares_place (p : Pos) (b : Block) : (place p b).Adds (Write.Spares foot b) :=
  adds_place fun _ => .inr (.inr rfl)

theorem spares_replace {c : Block} (hS : S.Within Tree.overgrown) :
    (replace S p c).Adds (Write.Spares foot b) :=
  adds_replace fun _ h => .inr (.inl (BlockSet.contains_mono hS h))

/-- A placement into air. -/
theorem fills_isAir {c : Block} {f : Unit → Build α} {n : Build α}
    (hf : (f ()).Adds Write.Fills) (hn : n.Adds Write.Fills) :
    (isAir p >>= fun air => if air = true then place p c >>= f else n).Adds Write.Fills :=
  adds_isAir (fun _ hair => adds_place_bind (fun _ hbefore => hbefore.trans hair) hf) hn

/-- A placement where the cell holds a block of a set. -/
theorem spares_isIn {c : Block} {f : Unit → Build α} {n : Build α}
    (hS : S.Within Tree.overgrown) (hf : (f ()).Adds (Write.Spares foot b))
    (hn : n.Adds (Write.Spares foot b)) :
    (isIn S p >>= fun found => if found = true then place p c >>= f else n).Adds
      (Write.Spares foot b) :=
  adds_isIn (fun _ h => adds_place_bind
    (fun _ hbefore => .inr (.inl (BlockSet.contains_mono hS (hbefore ▸ h)))) hf) hn

/-- The soil turns to dirt where it was found. -/
theorem spares_soil {f : Unit → Build α} {n : Build α} (hp : p.y = foot - 1)
    (hf : (f ()).Adds (Write.Spares foot b)) (hn : n.Adds (Write.Spares foot b)) :
    (isIn Ground.soils p >>= fun ok => if ok = true then place p Ground.dirt >>= f else n).Adds
      (Write.Spares foot b) :=
  adds_isIn (fun _ hsoil =>
    adds_place_bind (fun _ hbefore => .inl ⟨⟨rfl, hbefore ▸ hsoil⟩, hp⟩) hf) hn

theorem spares_forM_soil {cells : List Pos} {s : Site}
    (hfoot : ∀ q ∈ cells, q.y = foot - 1)
    (hcells : ∀ q ∈ cells, Ground.soils.contains (s.journal.idAt q)) :
    s.Adds (Write.Spares foot b) ((forM cells (place · Ground.dirt)).run s).2 := by
  induction cells generalizing s with
  | nil => exact .nil rfl
  | cons p cells ih =>
      rw [List.forall_mem_cons] at hfoot hcells
      rw [List.forM_cons, run_bind]
      rw [s.journal.idAt_eq p] at hcells
      refine (s.adds_place p _ false fun _ => .inl ⟨⟨rfl, hcells.1⟩, hfoot.1⟩).trans
        (ih hfoot.2 fun q hq => ?_)
      rw [Site.idAt_place]
      split
      · decide
      · exact hcells.2 q hq

end Build

open Build

theorem fills_tryVine (p : Pos) (f : Face) : (tryVine p f).Adds Write.Fills := by
  have hvine : (isAir p >>= fun air => if air = true then place p ⟨.vine, f.vineBit⟩ >>= done
      else done ()).Adds Write.Fills := fills_isAir (adds_done ()) (adds_done ())
  simp only [bind_done] at hvine
  exact (adds_bounded _).bind fun _ => .ite hvine (adds_done ())

/-! ## Acacias -/

namespace Acacia

variable {foot : Int32}

theorem spares_placeLeaf (b : Block) (q : Pos) : (placeLeaf q).Adds (Write.Spares foot b) :=
  spares_replace (by decide)

theorem spares_leafLayers (b : Block) (c : Pos) (r : Int32) :
    (leafLayers c r).Adds (Write.Spares foot b) := by
  refine Adds.bind (.forOffsets fun dx dz => .ite (adds_done ()) (spares_placeLeaf b _)) fun _ => ?_
  exact .forOffsets fun dx dz => spares_placeLeaf b _

theorem spares_crown (b : Block) (c : Pos) : (crown c).Adds (Write.Spares foot b) :=
  (spares_leafLayers b c 3).bind fun _ => .forM fun q _ => spares_placeLeaf b q

theorem spares_branch (p towards : Pos) (height : Int32) (n : Nat) (dy : Int32) (last : Pos)
    (top : Option Pos) :
    (branch p towards height n dy last top).Adds (Write.Spares foot Species.acacia.trunk) := by
  induction n generalizing dy last top with
  | zero => exact adds_done top
  | succ n ih =>
      refine .ite (.ite ?_ (ih _ _ _)) (adds_done top)
      exact (spares_place _ _).bind fun _ => ih _ _ _

theorem spares_secondBranch (p towards : Pos) (height start : Int32) :
    (secondBranch p towards height start).Adds (Write.Spares foot Species.acacia.trunk) := by
  refine (adds_bounded _).bind fun fork => (adds_bounded _).bind fun more => ?_
  refine (spares_branch _ _ _ _ _ _ _).bind fun top => ?_
  cases top with
  | none => exact adds_done ()
  | some c => exact spares_leafLayers _ c 2

theorem spares_build (p : Pos) : (build p).Adds (Write.Spares p.y Species.acacia.trunk) := by
  refine (adds_bounded _).bind fun first => (adds_bounded _).bind fun second => ?_
  refine .ite (adds_done _) ?_
  refine (adds_of_inspects (inspects_isClear ..)).bind fun clear => .ite ?_ (adds_done _)
  refine adds_isIn (fun s hsoil => ?_) (adds_done _)
  split
  · exact .nil rfl
  · refine adds_place_bind (fun _ hb => .inl ⟨⟨rfl, hb ▸ hsoil⟩, rfl⟩) ?_
    refine (adds_bounded _).bind fun side => (adds_bounded _).bind fun late => ?_
    refine (adds_bounded _).bind fun straight => ?_
    refine Adds.bind (.foldM_span (fun t dy => (spares_place _ _).bind fun _ => adds_done _) _)
      fun t => ?_
    refine (spares_crown _ t.last).bind fun _ => (adds_bounded _).bind fun other => ?_
    exact .ite ((spares_secondBranch _ _ _ _).bind fun _ => adds_done _) (adds_done _)

end Acacia

/-! ## Swamp oaks -/

namespace SwampOak

theorem fills_extendVine (data : UInt8) (p : Pos) (n : Nat) :
    (extendVine data p n).Adds Write.Fills := by
  induction n generalizing p with
  | zero => exact adds_done ()
  | succ n ih => exact fills_isAir (ih _) (adds_done ())

theorem fills_vineBeside (leaf : Pos) (f : Face) : (vineBeside leaf f).Adds Write.Fills := by
  refine (adds_bounded _).bind fun rare => .ite ?_ (adds_done ())
  exact fills_isAir (fills_extendVine _ _ _) (adds_done ())

theorem fills_vineLayer (p : Pos) (top y : Int32) : (vineLayer p top y).Adds Write.Fills := by
  refine .forSquare fun x z => (adds_of_inspects (by simp)).bind fun leaf => ?_
  exact .ite (.forM fun f _ => fills_vineBeside _ f) (adds_done ())

theorem spares_build (origin : Pos) (s : Site) :
    s.Adds (Write.Spares (Tree.swampOak.foot origin s) Species.oak.leaf)
      ((build origin).run s).2 := by
  refine adds_bind_inspects (Q := fun _ s =>
    Write.Spares ((sink origin origin.y.toInt.toNat).run s).1.y Species.oak.leaf)
    (by simp) (fun extra s => ?_) s
  refine adds_bind_inspects (Q := fun base _ => Write.Spares base.y Species.oak.leaf)
    (inspects_sink ..) (fun base => ?_) s
  refine Adds.ite (adds_done _) ?_
  refine (adds_of_inspects (inspects_isClear ..)).bind fun clear => .ite ?_ (adds_done _)
  refine adds_isIn (fun s hsoil => ?_) (adds_done _)
  split
  · exact .nil rfl
  · refine adds_place_bind (fun _ hb => .inl ⟨⟨rfl, hb ▸ hsoil⟩, rfl⟩) ?_
    refine Adds.bind (.forM_span fun y => .forOffsets fun dx dz => ?_) fun _ => ?_
    · exact (adds_of_inspects (SmallTree.inspects_hasLeaf ..)).bind fun kept =>
        .ite (spares_place _ _) (adds_done ())
    · refine Adds.bind (.forM_span fun dy => spares_replace (by decide)) fun _ => ?_
      refine Adds.bind (.forM_span fun y => ?_) fun _ => adds_done _
      exact (fills_vineLayer base _ y).mono fun _ h => h.spares

end SwampOak

/-! ## Jungle trees and bushes -/

namespace JungleTree

theorem fills_hang (data : UInt8) (x y z : Int32) (n : Nat) :
    (hang data x y z n).Adds Write.Fills := by
  induction n generalizing y with
  | zero => exact adds_done ()
  | succ n ih => exact .ite (fills_isAir (ih _) (adds_done ())) (adds_done ())

theorem fills_vineBelow (leaf : Pos) : (vineBelow leaf).Adds Write.Fills := by
  refine (adds_bounded _).bind fun rare => .ite ?_ (adds_done ())
  refine (adds_bounded _).bind fun side => (adds_bounded _).bind fun length => ?_
  exact fills_hang _ _ _ _ _

theorem fills_crownLayer (t : JungleTree) (p : Pos) (top y : Int32) :
    (t.crownLayer p top y).Adds Write.Fills := by
  refine .forOffsets fun dx dz => (adds_of_inspects (inspects_hasLeaf ..)).bind fun kept => ?_
  refine .ite (fills_isAir ?_ (adds_done ())) (adds_done ())
  exact .ite (fills_vineBelow _) (adds_done ())

theorem spares_trunkLayer {foot : Int32} (t : JungleTree) (base : Pos) (dy : Int32) :
    (t.trunkLayer base dy).Adds (Write.Spares foot Species.jungle.trunk) := by
  refine (spares_place _ _).bind fun _ => .ite (.forM fun c _ => ?_) (adds_done ())
  exact (fills_tryVine c.1 c.2).mono fun _ h => h.spares

theorem spares_build (t : JungleTree) (p : Pos) (s : Site) :
    s.Adds (Write.Spares ((Tree.jungle t).foot p s) Species.jungle.trunk)
      ((t.build p).run s).2 := by
  refine adds_bind_inspects (Q := fun _ s =>
    Write.Spares (((Ground.below searchedSoils p).run s).1.getD p.y) Species.jungle.trunk)
    (by simp) (fun tall s => ?_) s
  refine adds_bind_inspects (Q := fun ground _ =>
    Write.Spares (ground.getD p.y) Species.jungle.trunk)
    (Ground.inspects_below ..) (fun ground => ?_) s
  cases ground with
  | none => exact adds_done _
  | some ground =>
      refine Adds.ite (adds_done _) (spares_soil rfl ?_ (adds_done _))
      refine Adds.bind (.forM_span fun dy => t.spares_trunkLayer _ dy) fun _ => ?_
      refine Adds.bind (.forM_span fun y => ?_) fun _ => adds_done _
      exact (t.fills_crownLayer p _ y).mono fun _ h => h.spares

end JungleTree

theorem JungleBush.spares_build (bush : JungleBush) (p : Pos) (s : Site) :
    s.Adds (Write.Spares ((Tree.jungleBush bush).foot p s) bush.log) ((bush.build p).run s).2 := by
  refine adds_bind_inspects (Q := fun (soil : Pos) _ => Write.Spares (soil.up 1).y bush.log)
    (inspects_sink _ _) (fun soil => ?_) s
  refine spares_soil rfl ?_ (adds_done _)
  refine (spares_place _ _).bind fun _ => ?_
  refine Adds.bind (.forM_span fun dy => .forOffsets fun dx dz => ?_) fun _ => adds_done _
  have hleaf (kept : Bool) : (if kept = true then
      replace leafReplaceable ((soil.up 1).shift dx dy dz) bush.leaf else done ()).Adds
        (Write.Spares (soil.up 1).y bush.log) := .ite (spares_replace (by decide)) (adds_done ())
  exact .ite ((adds_of_inspects (by simp [map_eq_pure_bind])).bind hleaf) (hleaf true)

/-! ## Giant trees -/

namespace GiantJungle

variable {foot : Int32}

theorem spares_placeLeaf (b : Block) (q : Pos) : (placeLeaf q).Adds (Write.Spares foot b) :=
  spares_replace (by decide)

theorem spares_branch (p : Pos) (y : Int32) :
    (branch p y).Adds (Write.Spares foot Species.jungle.trunk) := by
  refine (adds_of_inspects (by simp)).bind fun turn => ?_
  refine Adds.bind (.forM_span fun i => spares_place _ _) fun _ => ?_
  refine (adds_bounded _).bind fun less => ?_
  exact .forM_span fun ly => .forOffsets fun dx dz => .ite (adds_done ()) (spares_placeLeaf _ _)

theorem spares_branches (p : Pos) (height y : Int32) (n : Nat) :
    (branches p height y n).Adds (Write.Spares foot Species.jungle.trunk) := by
  induction n generalizing y with
  | zero => exact adds_done ()
  | succ n ih =>
      exact .ite ((spares_branch p y).bind fun _ => (adds_bounded _).bind fun more => ih _)
        (adds_done ())

theorem spares_log (b : Block) (p : Pos) (dy : Int32) (vines : List (Pos × Face)) :
    (log p dy vines).Adds (Write.Spares foot b) := by
  refine spares_isIn (by decide) (.ite (.forM fun c _ => ?_) (adds_done ())) (adds_done ())
  exact (fills_tryVine c.1 c.2).mono fun _ h => h.spares

theorem spares_trunkLayer (b : Block) (p : Pos) (height dy : Int32) :
    (trunkLayer p height dy).Adds (Write.Spares foot b) := by
  refine (spares_log _ _ _ _).bind fun _ => .ite ?_ (adds_done ())
  exact (spares_log _ _ _ _).bind fun _ => (spares_log _ _ _ _).bind fun _ => spares_log _ _ _ _

theorem spares_build (p : Pos) : (build p).Adds (Write.Spares p.y Species.jungle.trunk) := by
  refine (adds_bounded _).bind fun tall => .ite (adds_done _) ?_
  intro s
  have hlooks : ∀ q ∈ soilCells p, (isIn Ground.soils q).Only Act.Looks := fun q _ => by simp
  have hfoot : ∀ q ∈ soilCells p, q.y = p.y - 1 := by
    simp [soilCells, Pos.down, Pos.east, Pos.south]
  rw [run_bind, (Only.allM hlooks).run_looks]
  split
  · rename_i hsoils
    have hcells : ∀ q ∈ soilCells p, Ground.soils.contains (s.journal.idAt q) :=
      (run_allM_iff hlooks).1 hsoils
    rw [run_bind]
    refine (spares_forM_soil hfoot hcells).trans (Adds.bind (.forM_span fun dy =>
      .forOffsets fun dx dz => .ite (spares_placeLeaf _ _) (adds_done ())) (fun _ => ?_) _)
    refine (adds_bounded _).bind fun less => (spares_branches _ _ _ _).bind fun _ => ?_
    exact Adds.bind (.forM_span fun dy => spares_trunkLayer _ _ _ dy) fun _ => adds_done _
  · exact .nil rfl

end GiantJungle

namespace GiantPine

theorem spares_spreadPodzol (b : Block) (base : Pos) :
    (spreadPodzol base).Adds (Write.Spares base.y b) := by
  refine (adds_bounded _).bind fun more => .forSquare fun dx dz => .ite ?_ (adds_done ())
  exact adds_replace fun _ hsoil => .inl ⟨⟨rfl, hsoil⟩, rfl⟩

theorem spares_crownLayer {foot : Int32} (b : Block) (p : Pos) (top y : Int32) :
    (crownLayer p top y).Adds (Write.Spares foot b) := by
  refine (adds_of_inspects (inspects_crownRadius _)).bind fun r => .forSquare fun x z => ?_
  exact .ite (spares_replace (by decide)) (adds_done ())

theorem spares_build (t : GiantPine) (p : Pos) (s : Site) :
    s.Adds (Write.Spares ((Tree.giantPine t).foot p s) Species.spruce.trunk)
      ((t.build p).run s).2 := by
  refine adds_bind_inspects (Q := fun ground _ =>
    Write.Spares (ground.getD p.y) Species.spruce.trunk)
    (Ground.inspects_below _ _) (fun ground => ?_) s
  cases ground with
  | none => exact adds_done _
  | some ground =>
      refine Adds.ite (adds_done _) ?_
      refine (adds_of_inspects (.allM fun c _ => by simp)).bind fun soil => .ite ?_ (adds_done _)
      refine (adds_bounded _).bind fun tall => ?_
      -- with or without podzol, the trunk and the crown come next
      refine .ite ((spares_spreadPodzol _ _).bind fun _ => ?_) ?_
      all_goals
        refine Adds.bind (.forM_span fun dy => .forM fun c _ => spares_place _ _) fun _ => ?_
        refine (adds_bounded _).bind fun less => ?_
        exact Adds.bind (.forM_span fun y => spares_crownLayer _ p _ y) fun _ => adds_done _

end GiantPine

/-- Every write of these trees is one of three: the soil right below the trunk turns to dirt,
a block is grown over that trees may grow over, or the one block is placed that the tree
places without a look. -/
theorem Tree.spares_build {t : Tree} {b : Block} (h : t.bold? = some b) (p : Pos) (s : Site) :
    s.Adds (Write.Spares (t.foot p s) b) ((t.build p).run s).2 := by
  cases t with
  | acacia =>
      cases h
      exact Acacia.spares_build p s
  | swampOak =>
      cases h
      exact SwampOak.spares_build p s
  | jungle t =>
      cases h
      exact t.spares_build p s
  | giantJungle =>
      cases h
      exact GiantJungle.spares_build p s
  | giantPine t =>
      cases h
      exact t.spares_build p s
  | jungleBush b =>
      cases h
      exact b.spares_build p s
  | _ => cases h

/-! ## Space that was checked -/

/-- Every cell of `V` holds a block of `S`. -/
def Site.Holds (S : BlockSet) (V : Pos → Prop) (s : Site) : Prop :=
  ∀ q, V q → S.contains (s.journal.idAt q)

/-- The act places no other blocks than those of `S`. -/
def Act.Lays (S : BlockSet) : Act → Prop
  | place _ b _ => S.contains b.id
  | draw _ | look _ | report _ => True

@[simp] theorem Act.lays_draw (S : BlockSet) (d : Draw) : (Act.draw d).Lays S := trivial

@[simp] theorem Act.lays_look (S : BlockSet) (p : Pos) : (Act.look p).Lays S := trivial

@[simp] theorem Act.lays_place (S : BlockSet) (p : Pos) (b : Block) (notify : Bool) :
    (Act.place p b notify).Lays S ↔ S.contains b.id := Iff.rfl

section Space

variable {S : BlockSet} {V : Pos → Prop} {s : Site} {p : Pos}

theorem Site.Holds.place (h : s.Holds S V) {b : Block} (hb : V p → S.contains b.id)
    (notify : Bool) : (s.place p b notify).Holds S V := by
  intro q hq
  rw [idAt_place]
  split
  · rename_i hp
    exact hb (hp.2 ▸ hq)
  · exact h q hq

theorem Act.Lays.holds_perform {a : Act} (ha : a.Lays S) (hs : s.Holds S V) :
    (a.perform s).2.Holds S V ∧
      s.Adds (fun w => V w.pos → S.contains w.before.id) (a.perform s).2 := by
  cases a with
  | draw d => exact ⟨hs, .nil rfl⟩
  | look p => exact ⟨hs, .nil rfl⟩
  | report n => exact ⟨hs, .nil rfl⟩
  | place p b notify =>
      refine ⟨hs.place (fun _ => ha) notify, s.adds_place p b notify fun _ hp => ?_⟩
      rw [← s.journal.idAt_eq p]
      exact hs p hp

/-- As long as a run places blocks of `S` alone, cells that held such blocks at first
hold such blocks, and no other block there is replaced. -/
theorem Build.Only.held {α : Type} {m : Build α} (h : m.Only (Act.Lays S)) (hs : s.Holds S V) :
    (m.run s).2.Holds S V ∧
      s.Adds (fun w => V w.pos → S.contains w.before.id) (m.run s).2 := by
  have hrun := Only.run
    (R := fun s t => s.Holds S V →
      t.Holds S V ∧ s.Adds (fun w => V w.pos → S.contains w.before.id) t)
    (fun _ hs => ⟨hs, .nil rfl⟩)
    (fun _ _ _ hst htu hs => ⟨(htu (hst hs).1).1, (hst hs).2.trans (htu (hst hs).1).2⟩)
    (fun _ _ ha hs => ha.holds_perform hs) h s
  exact hrun hs

/-- The cells that a check asks about, in layers from the base to above the top, each
with a radius of its own. -/
def InSpace (p : Pos) (height : Int32) (radius : Int32 → Int32) (q : Pos) : Prop :=
  q.y ∈ (Span.closed p.y (p.y + 1 + height)).toList ∧
    q.x ∈ (Span.around p.x (radius q.y)).toList ∧ q.z ∈ (Span.around p.z (radius q.y)).toList

variable {height : Int32} {radius : Int32 → Int32}

theorem not_inSpace_down (hp : ¬p.y < 1) : ¬InSpace p height radius (p.down 1) := by
  rintro ⟨hy, -⟩
  have hbelow : p.y ≤ p.y - 1 := (Span.mem_closed.1 hy).1
  lia

theorem holds_of_check {c : Pos → Build Bool} (hlooks : ∀ q, (c q).Only Act.Looks)
    (hc : ∀ q, InSpace p height radius q → ((c q).run s).1 = true → S.contains (s.journal.idAt q))
    (h : (((Span.closed p.y (p.y + 1 + height)).allM fun y =>
      if isLayer y then
        allSquare (.around p.x (radius y)) (.around p.z (radius y)) fun x z => c ⟨x, y, z⟩
      else done false).run s).1 = true) : s.Holds S (InSpace p height radius) := by
  have hrow (y x : Int32) : ∀ z ∈ (Span.around p.z (radius y)).toList,
      (c ⟨x, y, z⟩).Only Act.Looks := fun z _ => hlooks _
  have hsquare (y : Int32) : ∀ x ∈ (Span.around p.x (radius y)).toList,
      ((Span.around p.z (radius y)).allM fun z => c ⟨x, y, z⟩).Only Act.Looks :=
    fun x _ => .allM_span (hrow y x)
  intro q hq
  obtain ⟨hy, hx, hz⟩ := hq
  have hlayer := run_allM_span_true
    (fun y _ => .ite (.allM_span (hsquare y)) (.done false)) h q.y hy
  split at hlayer
  · exact hc q ⟨hy, hx, hz⟩ (run_allM_span_true (hrow q.y q.x)
      (run_allM_span_true (hsquare q.y) hlayer q.x hx) q.z hz)
  · cases hlayer

end Space

/-- The cells that a tree has checked before it is grown, by the draws that it starts
with. -/
def Tree.Checked : Tree → Pos → Site → Pos → Prop
  | acacia, p, s =>
      let first := (bounded 3).run s
      let second := (bounded 3).run first.2
      let height := first.1 + second.1 + 5
      InSpace p height (Acacia.clearRadius p height)
  | swampOak, p, s =>
      let extra := (bounded 4).run s
      let base := ((SwampOak.sink p p.y.toInt.toNat).run extra.2).1
      InSpace base (extra.1 + 5) (SwampOak.clearRadius base (extra.1 + 5))
  | _, _, _ => fun _ => False

/-- The soil lies below the space, and the tree has blocks that may be grown over. -/
theorem adds_grown {c : Prop} [Decidable c] {p : Pos} {height : Int32} {radius : Int32 → Int32}
    {m : Unit → Build Bool} {s : Site} (hp : ¬p.y < 1)
    (hheld : s.Holds Tree.overgrown (InSpace p height radius))
    (hm : (m ()).Only (Act.Lays Tree.overgrown)) :
    s.Adds (fun w => InSpace p height radius w.pos → Tree.overgrown.contains w.before.id)
      ((isIn Ground.soils (p.down 1) >>= fun ok =>
        if ok = true then
          if c then done false else place (p.down 1) Ground.dirt >>= m
        else done false).run s).2 := by
  have hbelow : ¬InSpace p height radius (p.down 1) := not_inSpace_down hp
  have hlooks : (isIn Ground.soils (p.down 1)).Only Act.Looks := by simp
  rw [run_bind, hlooks.run_looks]
  split
  · split
    · exact .nil rfl
    · rw [run_bind]
      refine (s.adds_place (p.down 1) Ground.dirt false fun _ hin => absurd hin hbelow).trans ?_
      exact (hm.held (hheld.place (fun hin => absurd hin hbelow) false)).2
  · exact .nil rfl

/-- A tree that stands too low or too high, or lacks space, adds nothing. Otherwise the
check has told what is in the space. -/
theorem adds_cleared {high : Prop} [Decidable high] {p : Pos} {height : Int32}
    {radius : Int32 → Int32} {clear m : Build Bool} (hlooks : clear.Only Act.Looks)
    (hm : ∀ s : Site, ¬p.y < 1 → (clear.run s).1 = true →
      s.Adds (fun w => InSpace p height radius w.pos → Tree.overgrown.contains w.before.id)
        (m.run s).2) (s : Site) :
    s.Adds (fun w => InSpace p height radius w.pos → Tree.overgrown.contains w.before.id)
      ((if p.y < 1 ∨ high then done false
        else clear >>= fun ok => if ok = true then m else done false).run s).2 := by
  split
  · exact .nil rfl
  · rename_i hrange
    rw [run_bind, hlooks.run_looks]
    split
    · rename_i hclear
      exact hm s (fun hlow => hrange (.inl hlow)) hclear
    · exact .nil rfl

/-- A run that succeeded has passed its check, and is the run of what was checked for. -/
theorem run_of_check {clear m : Build Bool} (hlooks : clear.Only Act.Looks) {s : Site}
    (h : ((clear >>= fun ok => if ok = true then m else done false).run s).1 = true) :
    (clear.run s).1 = true ∧
      (clear >>= fun ok => if ok = true then m else done false).run s = m.run s := by
  rw [run_bind, hlooks.run_looks] at h ⊢
  split at h
  · rename_i hclear
    exact ⟨hclear, by rw [if_pos hclear]⟩
  · cases h

theorem run_of_not {c : Prop} [Decidable c] {m : Build Bool} {s : Site}
    (h : ((if c then done false else m).run s).1 = true) :
    ¬c ∧ (if c then done false else m).run s = m.run s := by
  split at h
  · cases h
  · rename_i hc
    exact ⟨hc, by rw [if_neg hc]⟩

/-- The checks of a tree in a clear column. -/
theorem run_of_checks {high c : Prop} [Decidable high] [Decidable c] {p : Pos}
    {clear m program : Build Bool} (hlooks : clear.Only Act.Looks) {s : Site}
    (h : (program.run s).1 = true)
    (hprogram : program = if p.y < 1 ∨ high then done false
      else clear >>= fun ok => if ok = true then
          isIn Ground.soils (p.down 1) >>= fun ok => if ok = true then
            if c then done false else m
          else done false
        else done false) :
    (¬p.y < 1 ∧ ¬high ∧ ¬c) ∧ (clear.run s).1 = true ∧
      Ground.soils.contains (s.journal.idAt (p.down 1)) ∧ program.run s = m.run s := by
  subst hprogram
  obtain ⟨hrange, hrun⟩ := run_of_not h
  rw [hrun] at h ⊢
  obtain ⟨hclear, hrun⟩ := run_of_check hlooks h
  rw [hrun] at h ⊢
  obtain ⟨hsoil, hrun⟩ := run_of_check (by simp) h
  rw [hrun] at h ⊢
  obtain ⟨hhigh, hrun⟩ := run_of_not h
  rw [not_or] at hrange
  exact ⟨⟨hrange.1, hrange.2, hhigh⟩, hclear, hsoil, hrun⟩

namespace Acacia

@[simp] theorem lays_placeLog (q : Pos) : (placeLog q).Only (Act.Lays Tree.overgrown) := by
  simp only [placeLog, only_place, Act.lays_place]
  decide

@[simp] theorem lays_placeLeaf (q : Pos) : (placeLeaf q).Only (Act.Lays Tree.overgrown) := by
  have hleaf : Tree.overgrown.contains Species.acacia.leaf.id := by decide
  simp [placeLeaf, replace, hleaf]

@[simp] theorem lays_leafLayers (c : Pos) (r : Int32) :
    (leafLayers c r).Only (Act.Lays Tree.overgrown) := by
  simp [leafLayers]

@[simp] theorem lays_branch (p towards : Pos) (height : Int32) (n : Nat) (dy : Int32) (last : Pos)
    (top : Option Pos) :
    (branch p towards height n dy last top).Only (Act.Lays Tree.overgrown) := by
  induction n generalizing dy last top with
  | zero => exact .done top
  | succ n ih => simp [branch, ih]

@[simp] theorem lays_secondBranch (p towards : Pos) (height start : Int32) :
    (secondBranch p towards height start).Only (Act.Lays Tree.overgrown) := by
  refine .bind (by simp) fun fork => .bind (by simp) fun more => .bind (by simp) fun top => ?_
  cases top with
  | none => exact .done ()
  | some c => exact lays_leafLayers c 2

@[simp] theorem lays_trunk (p towards : Pos) (start height : Int32) (t : Trunk) :
    ((Span.halfOpen 0 height).foldM (trunkLayer p towards start) t).Only
      (Act.Lays Tree.overgrown) :=
  .foldM_span (fun t dy _ => by simp [trunkLayer]) t

theorem looks_isClear (p : Pos) (height : Int32) : (isClear p height).Only Act.Looks :=
  .allM_span fun y _ => .ite (.allSquare fun x _ z _ => by simp) (.done false)

theorem holds_of_isClear {p : Pos} {height : Int32} {s : Site}
    (h : ((isClear p height).run s).1 = true) :
    s.Holds Tree.overgrown (InSpace p height (clearRadius p height)) :=
  holds_of_check (c := isIn Species.acacia.overridable) (fun q => by simp)
    (fun q _ hq => BlockSet.contains_mono (by decide) hq) h

theorem adds_checked (p : Pos) (s : Site) :
    s.Adds (fun w => Tree.Checked .acacia p s w.pos → Tree.overgrown.contains w.before.id)
      ((build p).run s).2 := by
  refine adds_bind_inspects (Q := fun first s w =>
    let height := first + ((bounded 3).run s).1 + 5
    InSpace p height (clearRadius p height) w.pos → Tree.overgrown.contains w.before.id)
    (by simp) (fun first s => ?_) s
  refine adds_bind_inspects (Q := fun second _ w =>
    let height := first + second + 5
    InSpace p height (clearRadius p height) w.pos → Tree.overgrown.contains w.before.id)
    (by simp) (fun second s => ?_) s
  dsimp only
  generalize first + second + 5 = height
  refine adds_cleared (looks_isClear p height) (fun s hp hclear => ?_) s
  exact adds_grown hp (holds_of_isClear hclear) (by simp [crown])

end Acacia

namespace SwampOak

theorem looks_isClear (p : Pos) (height : Int32) : (isClear p height).Only Act.Looks :=
  .allM_span fun y _ => .ite (.allSquare fun x _ z _ => by simp [hasRoom]) (.done false)

/-- The column holds nothing but what the trunk grows into. -/
theorem holds_of_isClear {S : BlockSet} {p : Pos} {height : Int32} {s : Site}
    (hS : trunkReplaceable.Within S)
    (h : ((isClear p height).run s).1 = true) :
    s.Holds S (InSpace p height (clearRadius p height)) := by
  refine holds_of_check (c := hasRoom p) (fun q => by simp [hasRoom]) (fun q _ hq => ?_) h
  change (s.journal.idAt q = .air || s.journal.idAt q = .leaves ||
    ((s.journal.idAt q).isWater && q.y ≤ p.y)) = true at hq
  simp only [BlockId.isWater, Bool.or_eq_true, Bool.and_eq_true, decide_eq_true_eq] at hq
  refine BlockSet.contains_mono hS ?_
  obtain (h | h) | ⟨h | h, -⟩ := hq
  all_goals
    rw [h]
    decide

@[simp] theorem lays_crownLayer (p : Pos) (top y : Int32) :
    (crownLayer p top y).Only (Act.Lays Tree.overgrown) := by
  have hleaf : Tree.overgrown.contains Species.oak.leaf.id := by decide
  simp [crownLayer, SmallTree.hasLeaf, hleaf]

@[simp] theorem lays_growTrunk (p : Pos) (height : Int32) :
    (growTrunk trunkReplaceable Species.oak.trunk p height).Only (Act.Lays Tree.overgrown) := by
  have hlog : Tree.overgrown.contains Species.oak.trunk.id := by decide
  simp [growTrunk, replace, hlog]

@[simp] theorem lays_extendVine (data : UInt8) (p : Pos) (n : Nat) :
    (extendVine data p n).Only (Act.Lays Tree.overgrown) := by
  have hvine : Tree.overgrown.contains .vine := by decide
  induction n generalizing p with
  | zero => exact .done ()
  | succ n ih => simp [extendVine, ih, hvine]

@[simp] theorem lays_vineLayer (p : Pos) (top y : Int32) :
    (vineLayer p top y).Only (Act.Lays Tree.overgrown) := by
  have hvine : Tree.overgrown.contains .vine := by decide
  simp [vineLayer, vineBeside, hangVine, hvine]

theorem adds_checked (p : Pos) (s : Site) :
    s.Adds (fun w => Tree.Checked .swampOak p s w.pos → Tree.overgrown.contains w.before.id)
      ((build p).run s).2 := by
  refine adds_bind_inspects (Q := fun extra s w =>
    let base := ((sink p p.y.toInt.toNat).run s).1
    InSpace base (extra + 5) (clearRadius base (extra + 5)) w.pos →
      Tree.overgrown.contains w.before.id) (by simp) (fun extra s => ?_) s
  refine adds_bind_inspects (Q := fun base _ w =>
    InSpace base (extra + 5) (clearRadius base (extra + 5)) w.pos →
      Tree.overgrown.contains w.before.id) (by simp) (fun base s => ?_) s
  dsimp only
  generalize extra + 5 = height
  refine adds_cleared (looks_isClear base height) (fun s hp hclear => ?_) s
  exact adds_grown hp (holds_of_isClear (by decide) hclear) (by simp)

end SwampOak

namespace Tree

theorem adds_checked (t : Tree) (p : Pos) (s : Site) :
    s.Adds (fun w => t.Checked p s w.pos → overgrown.contains w.before.id)
      ((t.build p).run s).2 := by
  have hunchecked (t : Tree) (ht : t.Checked p s = fun _ => False) :
      s.Adds (fun w => t.Checked p s w.pos → overgrown.contains w.before.id)
        ((t.build p).run s).2 := by
    rw [ht]
    exact ((t.build p).adds_some s).mono fun w _ h => h.elim
  cases t with
  | acacia => exact Acacia.adds_checked p s
  | swampOak => exact SwampOak.adds_checked p s
  | _ => exact hunchecked _ rfl

/-- What these trees destroy. Every write turns the soil right below the trunk to dirt, or
replaces a block that trees may grow over, or is of the one kind that the tree places
without a look: logs, and leaves for the swamp oak. Acacias and swamp oaks check some
space first, and there even these replace nothing else. -/
theorem writes_spare_other_blocks {t : Tree} {b : Block} (h : t.bold? = some b) (p : Pos)
    (s : Site) :
    s.Adds (fun w => w.TurnsSoil ∧ w.pos.y = t.foot p s - 1 ∨ overgrown.contains w.before.id ∨
      w.block = b ∧ ¬t.Checked p s w.pos) ((t.build p).run s).2 := by
  refine ((spares_build h p s).and (adds_checked t p s)).mono fun w ⟨hspares, hchecked⟩ => ?_
  rcases hspares with hsoil | hover | hbold
  · exact .inl hsoil
  · exact .inr (.inl hover)
  · by_cases hin : t.Checked p s w.pos
    · exact .inr (.inl (hchecked hin))
    · exact .inr (.inr ⟨hbold, hin⟩)

/-- A jungle tree below a stone replaces the stone by a log. -/
theorem jungle_tree_below_stone :
    let w := World.ofLayers 0 [(.plain .dirt, 1), (.plain .grass, 1)]
    let s : Site := ⟨.ofWorld (w.set ⟨0, 4, 0⟩ (.plain .stone)), .ofSeed 11, #[]⟩
    let tree : Tree := .jungle ⟨false⟩
    s.Adds (fun w => w.TurnsSoil ∧ w.pos.y = tree.foot ⟨0, 2, 0⟩ s - 1 ∨
      overgrown.contains w.before.id ∨
      w.block = Species.jungle.trunk ∧ ¬tree.Checked ⟨0, 2, 0⟩ s w.pos)
        ((tree.build ⟨0, 2, 0⟩).run s).2 ∧
      ⟨⟨0, 4, 0⟩, Species.jungle.trunk, false, .plain .stone⟩ ∈
        ((tree.build ⟨0, 2, 0⟩).run s).2.journal.writes := by
  intro w s tree
  exact ⟨writes_spare_other_blocks rfl ⟨0, 2, 0⟩ s, by decide +kernel⟩

/-- Trees do destroy other blocks, and not only below their origin. -/
theorem jungle_tree_destroys_stone :
    ¬∀ (t : Tree) (b : Block) (p : Pos) (s : Site), t.bold? = some b →
      s.Adds (fun w => w.pos.y < p.y ∨ w.TurnsSoil ∨ overgrown.contains w.before.id)
        ((t.build p).run s).2 := by
  intro h
  let w := World.ofLayers 0 [(.plain .dirt, 1), (.plain .grass, 1)]
  let s : Site := ⟨.ofWorld (w.set ⟨0, 4, 0⟩ (.plain .stone)), .ofSeed 11, #[]⟩
  obtain ⟨ws, hadded, hws⟩ := h (.jungle ⟨false⟩) _ ⟨0, 2, 0⟩ s rfl
  have hlog : (⟨⟨0, 4, 0⟩, Species.jungle.trunk, false, .plain .stone⟩ : Write) ∈
      (((build (.jungle ⟨false⟩) ⟨0, 2, 0⟩).run s).2.journal.writes.toList) := by
    decide +kernel
  rw [hadded] at hlog
  rcases hws _ hlog with hbelow | hsoil | hover
  · exact absurd hbelow (by decide)
  · exact absurd hsoil.1 (by decide)
  · exact absurd hover (by decide)

end Tree

end VoxelFeatures
