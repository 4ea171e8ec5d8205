import Mathlib.Order.Bounds.Defs
import VoxelFeatures.Proofs.NearFeatures
import VoxelFeatures.Proofs.Retention
import VoxelFeatures.Proofs.Sweep

/-!
# Basins dug at once

A lake looks at a cell and at the one above it before it digs, in a world that it has
partly filled by then, maybe with water. The cells of a column are dug from the bottom up,
so the cell above is as it was at first. So the lake comes to the same as if all its cells
were dug at once, and the cells around it stay as they were when it was found that none of
them lets a fluid in.

Of the basin nothing is used but that it keeps clear of the sides of its box.
-/

namespace VoxelFeatures

open Build

/-! ## The ground -/

/-- The first layer from `p` downwards that is not above layer five or not air. -/
def IsGroundBelow (ids : Pos → BlockId) (p : Pos) (d : Int32) : Prop :=
  IsGreatest {y | y ≤ p.y ∧ (y ≤ 5 ∨ ids ⟨p.x, y, p.z⟩ ≠ .air)} d

theorem isGroundBelow_self {ids : Pos → BlockId} {p : Pos} (h : p.y ≤ 5 ∨ ids p ≠ .air) :
    IsGroundBelow ids p p.y :=
  ⟨⟨Int32.le_refl _, h⟩, fun _ hy => hy.1⟩

/-- Air above layer five is no ground. -/
theorem IsGroundBelow.of_down {ids : Pos → BlockId} {p : Pos} {d : Int32} (hp : 5 < p.y)
    (hair : ids p = .air) (h : IsGroundBelow ids (p.down 1) d) : IsGroundBelow ids p d := by
  have hdown : (p.y - 1).toInt = p.y.toInt - 1 := toInt_sub_one (by lia)
  have hle (y : Int32) : y ≤ p.y - 1 ↔ y < p.y := by
    rw [Int32.le_iff_toInt_le, Int32.lt_iff_toInt_lt, hdown]
    omega
  obtain ⟨⟨hd, hground⟩, hgreatest⟩ := h
  refine ⟨⟨Int32.le_of_lt ((hle d).1 hd), hground⟩, fun y ⟨hy, hstop⟩ => ?_⟩
  have hne : y ≠ p.y := by
    rintro rfl
    exact hstop.elim (fun hlow => Int32.not_le.2 hp hlow) fun hsolid => hsolid hair
  exact hgreatest ⟨(hle y).2 (by lia), hstop⟩

theorem exists_ground (p : Pos) (n : Nat) (hn : n = (p.y.toInt - 5).toNat) (s : Site) :
    ∃ d, IsGroundBelow s.journal.idAt p d ∧ (sink p n).run s = (⟨p.x, d, p.z⟩, s) := by
  have hfive : (5 : Int32).toInt = 5 := by decide
  induction n generalizing p with
  | zero =>
      have hlow : p.y ≤ 5 := by
        rw [Int32.le_iff_toInt_le, hfive]
        omega
      exact ⟨p.y, isGroundBelow_self (.inl hlow), rfl⟩
  | succ n ih =>
      have hhigh : 5 < p.y := by
        rw [Int32.lt_iff_toInt_lt, hfive]
        omega
      have hdown : (p.down 1).y.toInt = p.y.toInt - 1 := toInt_sub_one (by lia)
      by_cases hair : s.journal.idAt p = .air
      · obtain ⟨d, hd, hrun⟩ := ih (p.down 1) (by omega)
        have hstep : (sink p (n + 1)).run s = (sink (p.down 1) n).run s := by
          simp [sink, isAir, run_bind, hair]
        exact ⟨d, hd.of_down hhigh hair, hstep.trans hrun⟩
      · refine ⟨p.y, isGroundBelow_self (.inr hair), ?_⟩
        simp [sink, isAir, run_bind, hair]

namespace LakeBasin

/-! ## Cells of the box -/

/-- The cell is outside the basin and shares a face with a cell of it. -/
def Touches (b : LakeBasin) (x y z : Nat) : Prop :=
  b.has x y z = false ∧ ∃ x' y' z', b.has x' y' z' ∧
    ((x : Int) - x').natAbs + ((y : Int) - y').natAbs + ((z : Int) - z').natAbs = 1

theorem isBorder_iff (b : LakeBasin) (x y z : Nat) : b.isBorder x y z ↔ b.Touches x y z := by
  simp only [isBorder, Touches, Bool.and_eq_true, Bool.or_eq_true, Bool.not_eq_true',
    decide_eq_true_eq]
  refine and_congr_right fun _ => ⟨?_, ?_⟩
  · rintro (((((h | ⟨hx, h⟩) | h) | ⟨hz, h⟩) | h) | ⟨hy, h⟩)
    · exact ⟨_, _, _, h, by omega⟩
    · exact ⟨_, _, _, h, by omega⟩
    · exact ⟨_, _, _, h, by omega⟩
    · exact ⟨_, _, _, h, by omega⟩
    · exact ⟨_, _, _, h, by omega⟩
    · exact ⟨_, _, _, h, by omega⟩
  · rintro ⟨x', y', z', h, hnear⟩
    have heq {n m : Nat} (hnm : ((n : Int) - m).natAbs = 0) : m = n := by omega
    have hnext {n m : Nat} (hnm : ((n : Int) - m).natAbs = 1) : m = n + 1 ∨ n = m + 1 := by omega
    rcases Nat.add_eq_one_iff.1 hnear with ⟨hxy, hz⟩ | ⟨hxy, hz⟩
    · obtain ⟨hx, hy⟩ := Nat.add_eq_zero_iff.1 hxy
      obtain rfl := heq hx
      obtain rfl := heq hy
      rcases hnext hz with rfl | rfl
      · simp [h]
      · simp [h]
    · obtain rfl := heq hz
      rcases Nat.add_eq_one_iff.1 hxy with ⟨hx, hy⟩ | ⟨hx, hy⟩
      · obtain rfl := heq hx
        rcases hnext hy with rfl | rfl
        · simp [h]
        · simp [h]
      · obtain rfl := heq hy
        rcases hnext hx with rfl | rfl
        · simp [h]
        · simp [h]

/-- The basin keeps clear of the sides of its box. -/
def Inner (b : LakeBasin) : Prop :=
  ∀ x y z, b.has x y z → (1 ≤ x ∧ x ≤ 14) ∧ (1 ≤ y ∧ y ≤ 6) ∧ 1 ≤ z ∧ z ≤ 14

theorem has_ofBowls (bowls : List Bowl) {x y z : Nat} (h : x < 16 ∧ y < 8 ∧ z < 16) :
    (ofBowls bowls).has x y z = (isInner x y z && bowls.any (·.holds x y z)) := by
  have hx : (x * 128 + z * 8 + y) / 128 = x := by omega
  have hz : (x * 128 + z * 8 + y) / 8 % 16 = z := by omega
  have hy : (x * 128 + z * 8 + y) % 8 = y := by omega
  rw [has, dif_pos h]
  simp only [ofBowls, Vector.getElem_ofFn, hx, hy, hz]

theorem inner_ofBowls (bowls : List Bowl) : (ofBowls bowls).Inner := by
  intro x y z h
  by_cases hbox : x < 16 ∧ y < 8 ∧ z < 16
  · rw [has_ofBowls bowls hbox, Bool.and_eq_true] at h
    have hinner := h.1
    simp only [isInner, Bool.and_eq_true, decide_eq_true_eq] at hinner
    omega
  · rw [has, dif_neg hbox] at h
    cases h

theorem inner_drawn (s : Site) : (draw.run s).1.Inner := by
  have hdrawn := returns_run draw s
  obtain ⟨more, -, hdrawn⟩ := (returns_bind ..).1 hdrawn
  obtain ⟨bowls, -, hdrawn⟩ := (returns_bind ..).1 hdrawn
  rw [show (draw.run s).1 = ofBowls bowls from hdrawn]
  exact inner_ofBowls bowls

theorem mem_boxCells {low count x y z : Nat} :
    (x, y, z) ∈ boxCells low count ↔ x < 16 ∧ (low ≤ y ∧ y < low + count) ∧ z < 16 := by
  simp only [boxCells, List.mem_flatMap, List.mem_map, List.mem_range, List.mem_range'_1]
  constructor
  · rintro ⟨x', hx, z', hz, y', hy, h⟩
    cases h
    exact ⟨hx, hy, hz⟩
  · rintro ⟨hx, hy, hz⟩
    exact ⟨x, hx, z, hz, y, hy, rfl⟩

theorem cell_up (corner : Pos) (x y z : Nat) :
    (cell corner x y z).up 1 = cell corner x (y + 1) z := by
  rw [cell, cell, Pos.shift, Pos.shift, Pos.up, ofNat_succ, Int32.add_assoc]

/-- No two offsets of the box lead to the same cell. -/
theorem cell_inj {corner : Pos} {x y z x' y' z' : Nat} (hbox : x < 16 ∧ y < 16 ∧ z < 16)
    (hbox' : x' < 16 ∧ y' < 16 ∧ z' < 16) (h : cell corner x y z = cell corner x' y' z') :
    x = x' ∧ y = y' ∧ z = z' := by
  have hside {c : Int32} {n m : Nat} (hn : n < 16) (hm : m < 16)
      (hsum : c + .ofNat n = c + .ofNat m) : n = m := by
    have hword := congrArg Int32.toInt ((Int32.add_right_inj c).1 hsum)
    rw [Int32.toInt_ofNat_of_lt (by omega), Int32.toInt_ofNat_of_lt (by omega)] at hword
    exact Int.ofNat_inj.1 hword
  exact ⟨hside hbox.1 hbox'.1 (congrArg Pos.x h), hside hbox.2.1 hbox'.2.1 (congrArg Pos.y h),
    hside hbox.2.2 hbox'.2.2 (congrArg Pos.z h)⟩

/-! ## The search for an opening -/

/-- Some cell that the upper half of the basin touches holds a fluid. -/
def Opens (b : LakeBasin) (corner : Pos) (ids : Pos → BlockId) : Prop :=
  ∃ x y z, (4 ≤ y ∧ y ≤ 7) ∧ b.Touches x y z ∧ (ids (cell corner x y z)).isFluid

/-- The cell at an offset that is kept as a triple. -/
def cellOf (corner : Pos) (c : Nat × Nat × Nat) : Pos := cell corner c.1 c.2.1 c.2.2

theorem run_opening (corner : Pos) (b : LakeBasin) (cells : List (Nat × Nat × Nat)) (s : Site) :
    ((opening corner b cells).run s).2 = s ∧
      (((opening corner b cells).run s).1 = none ↔ ∀ c ∈ cells, b.Touches c.1 c.2.1 c.2.2 →
        (s.journal.idAt (cellOf corner c)).isFluid = false) := by
  induction cells with
  | nil => simp [opening]
  | cons c cells ih =>
      obtain ⟨x, y, z⟩ := c
      rw [List.forall_mem_cons, opening]
      by_cases hborder : b.Touches x y z
      · rw [if_pos ((isBorder_iff b x y z).2 hborder), run_bind, run_look]
        cases hfluid : (s.journal.idAt (cell corner x y z)).isFluid with
        | true => simp [cellOf, hborder, hfluid]
        | false => simpa [cellOf, hborder, hfluid] using ih
      · rw [if_neg (mt (isBorder_iff b x y z).1 hborder)]
        simpa [hborder] using ih

/-- All cells around a basin are in its box. -/
theorem Inner.box {b : LakeBasin} (hb : b.Inner) {x y z : Nat} (h : b.Touches x y z) :
    x < 16 ∧ y < 8 ∧ z < 16 := by
  obtain ⟨x', y', z', hhas, hnear⟩ := h.2
  have hinner := hb x' y' z' hhas
  omega

theorem opening_none_iff {b : LakeBasin} (hb : b.Inner) (corner : Pos) (s : Site) :
    ((opening corner b (boxCells 4 4)).run s).1 = none ↔ ¬b.Opens corner s.journal.idAt := by
  rw [(run_opening corner b (boxCells 4 4) s).2]
  constructor
  · rintro hclosed ⟨x, y, z, hy, htouches, hfluid⟩
    have hbox := hb.box htouches
    have hmem : (x, y, z) ∈ boxCells 4 4 := mem_boxCells.2 (by omega)
    have hdry := hclosed (x, y, z) hmem htouches
    rw [cellOf, hfluid] at hdry
    cases hdry
  · rintro hnot ⟨x, y, z⟩ hmem htouches
    obtain ⟨-, hy, -⟩ := mem_boxCells.1 hmem
    refine Bool.eq_false_iff.2 fun hfluid => hnot ⟨x, y, z, by omega, htouches, hfluid⟩

/-! ## The digging -/

/-- A cell that is dug out: neither it nor the cell above is water. -/
structure Digs (b : LakeBasin) (corner : Pos) (ids : Pos → BlockId) (x y z : Nat) : Prop where
  has : b.has x y z
  inHeight : (cell corner x y z).inHeight
  dry : (ids (cell corner x y z)).isWater = false
  dryAbove : (ids ((cell corner x y z).up 1)).isWater = false

theorem digs_congr {b : LakeBasin} {corner : Pos} {ids ids' : Pos → BlockId} {x y z : Nat}
    (hself : ids (cell corner x y z) = ids' (cell corner x y z))
    (habove : ids ((cell corner x y z).up 1) = ids' ((cell corner x y z).up 1)) :
    b.Digs corner ids x y z ↔ b.Digs corner ids' x y z :=
  ⟨fun h => ⟨h.has, h.inHeight, hself ▸ h.dry, habove ▸ h.dryAbove⟩,
    fun h => ⟨h.has, h.inHeight, hself ▸ h.dry, habove ▸ h.dryAbove⟩⟩

theorem settled_place (s : Site) {p : Pos} (hp : p.inHeight) (id : BlockId) :
    Settled p (.plain id) (s.place p (.plain id) false).journal :=
  s.settled_place_of_lt hp (by decide : (0 : UInt8) < 16)

/-- One step of the digging. -/
def digAt (fluid : BlockId) (corner : Pos) (b : LakeBasin) (c : Nat × Nat × Nat) : Build Unit :=
  if b.has c.1 c.2.1 c.2.2 then dig fluid corner c.1 c.2.1 c.2.2 else return ()

theorem fill_eq (fluid : BlockId) (corner : Pos) (b : LakeBasin) :
    fill fluid corner b = forM (boxCells 0 8) (digAt fluid corner b) := rfl

/-- What a step comes to, by the ids before. -/
structure Dug (fluid : BlockId) (corner : Pos) (b : LakeBasin) (c : Nat × Nat × Nat)
    (ids : Pos → BlockId) (j : Journal) : Prop where
  digs : b.Digs corner ids c.1 c.2.1 c.2.2 → Settled (cellOf corner c) (content fluid c.2.1) j
  spares : ¬b.Digs corner ids c.1 c.2.1 c.2.2 → j.idAt (cellOf corner c) = ids (cellOf corner c)

theorem run_digAt (fluid : BlockId) (corner : Pos) (b : LakeBasin) (c : Nat × Nat × Nat)
    (s : Site) :
    ((digAt fluid corner b c).run s).2 =
      if b.has c.1 c.2.1 c.2.2 ∧ (s.journal.idAt (cellOf corner c)).isWater = false ∧
        (s.journal.idAt ((cellOf corner c).up 1)).isWater = false
      then s.place (cellOf corner c) (content fluid c.2.1) false else s := by
  rw [cellOf]
  by_cases hhas : b.has c.1 c.2.1 c.2.2
  · cases hdry : (s.journal.idAt (cell corner c.1 c.2.1 c.2.2)).isWater with
    | true => simp [digAt, dig, run_bind, hhas, hdry]
    | false =>
        cases habove : (s.journal.idAt ((cell corner c.1 c.2.1 c.2.2).up 1)).isWater with
        | true => simp [digAt, dig, run_bind, hhas, hdry, habove]
        | false => simp [digAt, dig, run_bind, hhas, hdry, habove]
  · simp [digAt, hhas]

theorem dug_digAt (fluid : BlockId) (corner : Pos) (b : LakeBasin) (c : Nat × Nat × Nat)
    (s : Site) :
    Dug fluid corner b c s.journal.idAt ((digAt fluid corner b c).run s).2.journal := by
  rw [run_digAt]
  split
  · rename_i hfound
    refine ⟨fun hdigs => settled_place s hdigs.inHeight _, fun hnot => ?_⟩
    have hout : (cellOf corner c).inHeight = false :=
      Bool.eq_false_iff.2 fun hin => hnot ⟨hfound.1, hin, hfound.2.1, hfound.2.2⟩
    rw [s.place_of_not_inHeight hout]
  · rename_i hfound
    exact ⟨fun hdigs => absurd ⟨hdigs.has, hdigs.dry, hdigs.dryAbove⟩ hfound, fun _ => rfl⟩

theorem cellwise_digAt (fluid : BlockId) (corner : Pos) (b : LakeBasin) :
    Cellwise (boxCells 0 8) (digAt fluid corner b) (cellOf corner)
      (fun c q => q = cellOf corner c ∨ q = (cellOf corner c).up 1) (Dug fluid corner b) := by
  refine ⟨fun c _ => ?_, fun c _ s => dug_digAt fluid corner b c s,
    fun c ids ids' j hids hdug => ?_, fun c ids => ?_⟩
  · simp [digAt, dig, cellOf]
  · have hself : ids (cellOf corner c) = ids' (cellOf corner c) := hids _ (.inl rfl)
    have habove : ids ((cellOf corner c).up 1) = ids' ((cellOf corner c).up 1) := hids _ (.inr rfl)
    have hdigs : b.Digs corner ids' c.1 c.2.1 c.2.2 ↔ b.Digs corner ids c.1 c.2.1 c.2.2 :=
      digs_congr hself.symm habove.symm
    exact ⟨fun h => hdug.digs (hdigs.1 h), fun h => (hdug.spares (mt hdigs.2 h)).trans hself⟩
  · intro j q d notify hne hdug
    refine ⟨fun h => settles_settled _ _ j q d notify hne (hdug.digs h), fun h => ?_⟩
    exact settles_idAt _ (· = ids (cellOf corner c)) j q d notify hne (hdug.spares h)

/-- The offsets of a column come from the bottom up. -/
theorem pairwise_boxCells :
    (boxCells 0 8).Pairwise fun c d => c ≠ d ∧ c ≠ (d.1, d.2.1 + 1, d.2.2) := by
  have hwalk := pairwise_nested (List.pairwise_lt_range (n := 16))
    (List.pairwise_lt_range (n := 16)) (List.pairwise_lt_range' (s := 0) (n := 8) 1)
    fun x z y => (x, y, z)
  refine List.Pairwise.imp ?_ hwalk
  rintro _ _ ⟨x, z, y, x', z', y', rfl, rfl, hlt⟩
  simp only [ne_eq, Prod.mk.injEq]
  omega

/-- No step looks at a cell of an earlier one. -/
theorem pairwise_cellOf (corner : Pos) :
    (boxCells 0 8).Pairwise fun c d => cellOf corner c ≠ cellOf corner d ∧
      ¬(cellOf corner c = cellOf corner d ∨ cellOf corner c = (cellOf corner d).up 1) := by
  refine pairwise_boxCells.imp_of_mem ?_
  rintro ⟨x, y, z⟩ ⟨x', y', z'⟩ hc hd ⟨hne, hneUp⟩
  rw [mem_boxCells] at hc hd
  have hcell : cell corner x y z ≠ cell corner x' y' z' := fun h => by
    obtain ⟨rfl, rfl, rfl⟩ := cell_inj (by omega) (by omega) h
    exact hne rfl
  have habove : cell corner x y z ≠ cell corner x' (y' + 1) z' := fun h => by
    obtain ⟨rfl, rfl, rfl⟩ := cell_inj (by omega) (by omega) h
    exact hneUp rfl
  refine ⟨hcell, not_or.2 ⟨hcell, ?_⟩⟩
  rw [cellOf, cellOf, cell_up]
  exact habove

/-! ## The lake -/

/-- What the world comes to where a basin is dug. -/
structure Committed (b : LakeBasin) (fluid : BlockId) (corner : Pos) (j j' : Journal) : Prop where
  dug : ∀ x y z, b.Digs corner j.idAt x y z →
    j'.get (cell corner x y z) = .plain (if 4 ≤ y then .air else fluid)
  others : ∀ q, (∀ x y z, b.Digs corner j.idAt x y z → cell corner x y z ≠ q) →
    j'.idAt q = j.idAt q
  closed : ¬b.Opens corner j'.idAt

theorem committed_fill {b : LakeBasin} (hb : b.Inner) (fluid : BlockId) (corner : Pos) {s : Site}
    (hclosed : ¬b.Opens corner s.journal.idAt) :
    b.Committed fluid corner s.journal ((fill fluid corner b).run s).2.journal := by
  have hwalk := cellwise_digAt fluid corner b
  have hout := hwalk.out_forM (pairwise_cellOf corner) s
  rw [← fill_eq] at hout
  have hothers (q : Pos)
      (hq : ∀ x y z, b.Digs corner s.journal.idAt x y z → cell corner x y z ≠ q) :
      ((fill fluid corner b).run s).2.journal.idAt q = s.journal.idAt q := by
    by_cases hcell : ∃ c ∈ boxCells 0 8, cellOf corner c = q
    · obtain ⟨c, hc, rfl⟩ := hcell
      exact (hout c hc).spares fun hdigs => hq _ _ _ hdigs rfl
    · rw [fill_eq]
      exact hwalk.only_forM.idAt_run hcell s
  refine ⟨fun x y z hdigs => ?_, hothers, ?_⟩
  · have hinner := hb x y z hdigs.has
    have hmem : (x, y, z) ∈ boxCells 0 8 := mem_boxCells.2 (by omega)
    exact ((hout _ hmem).digs hdigs).2
  · rintro ⟨x, y, z, hy, htouches, hfluid⟩
    -- the cells around the basin are not dug out, so a fluid there would be an old one
    rw [hothers _ fun x' y' z' hdigs hcell => ?_] at hfluid
    · exact hclosed ⟨x, y, z, hy, htouches, hfluid⟩
    · have hbox := hb.box htouches
      have hinner := hb x' y' z' hdigs.has
      obtain ⟨rfl, rfl, rfl⟩ := cell_inj (by omega) (by omega) hcell
      exact Bool.false_ne_true (htouches.1.symm.trans hdigs.has)

/-- What a lake does after its search for an opening. -/
def settle (fluid : BlockId) (corner : Pos) (b : LakeBasin) : Option Pos → Build Bool
  | some fluidAt => do
      report (.lakeOpens corner fluidAt)
      return false
  | none => do
      fill fluid corner b
      return true

theorem build_eq (fluid : BlockId) (p : Pos) :
    build fluid p = (ground p >>= fun bottom =>
      if bottom.y ≤ 4 then return false
      else draw >>= fun b => opening (bottom.down 4) b (boxCells 4 4) >>=
        settle fluid (bottom.down 4) b) := by
  rw [build]
  refine bind_congr fun bottom => if_congr Iff.rfl rfl ?_
  refine bind_congr fun b => bind_congr fun found => ?_
  cases found with
  | none => rfl
  | some fluidAt => rfl

theorem run_settle (fluid : BlockId) (corner : Pos) {b : LakeBasin} (hb : b.Inner) (s : Site) :
    let t := (settle fluid corner b ((opening corner b (boxCells 4 4)).run s).1).run s
    (t.1 = false ↔ b.Opens corner s.journal.idAt) ∧
      (t.1 = true → b.Committed fluid corner s.journal t.2.journal) := by
  intro t
  have hnone := opening_none_iff hb corner s
  cases hfound : ((opening corner b (boxCells 4 4)).run s).1 with
  | none =>
      have hclosed := hnone.1 hfound
      have hrun : t = (true, ((fill fluid corner b).run s).2) := by
        simp only [t, hfound, settle, run_bind, pure_eq, run_done]
      rw [hrun]
      exact ⟨iff_of_false (fun h => Bool.false_ne_true h.symm) hclosed,
        fun _ => committed_fill hb fluid corner hclosed⟩
  | some fluidAt =>
      have hopens : b.Opens corner s.journal.idAt := by
        by_contra hclosed
        rw [hnone.2 hclosed] at hfound
        cases hfound
      have hrefused : t.1 = false := by
        simp only [t, hfound, settle, run_bind, pure_eq, run_done]
      rw [hrefused]
      exact ⟨iff_of_true rfl hopens, fun h => absurd h Bool.false_ne_true⟩

/-- A lake on low ground is refused. Any other draws its basin in the world as it is, and
goes on from there. -/
theorem run_build (fluid : BlockId) (p : Pos) (s : Site) :
    ∃ d, IsGroundBelow s.journal.idAt (p - ⟨8, 0, 8⟩) d ∧
      let corner : Pos := ⟨p.x - 8, d - 4, p.z - 8⟩
      let b := (draw.run s).1
      let u := (draw.run s).2
      (build fluid p).run s = if d ≤ 4 then (false, s)
        else (settle fluid corner b ((opening corner b (boxCells 4 4)).run u).1).run u := by
  obtain ⟨d, hd, hground⟩ := exists_ground (p - ⟨8, 0, 8⟩) _ rfl s
  refine ⟨d, hd, ?_⟩
  have hscan (corner : Pos) (b : LakeBasin) (u : Site) :
      ((opening corner b (boxCells 4 4)).run u).2 = u := (run_opening ..).1
  rw [build_eq, run_bind, ground, hground]
  split
  · rfl
  · rw [run_bind, run_bind, hscan]
    rfl

/-- A lake is refused exactly where its ground is too low or its basin would open on a
fluid. Otherwise all dry cells of the basin are dug out as they were before, nothing else
changes its id, and the basin opens on no fluid in the end either. -/
theorem basin_is_committed_exactly (fluid : BlockId) (p : Pos) (s : Site) :
    let b := (draw.run s).1
    let t := (build fluid p).run s
    ∃ d, IsGroundBelow s.journal.idAt (p - ⟨8, 0, 8⟩) d ∧
      let corner : Pos := ⟨p.x - 8, d - 4, p.z - 8⟩
      b.Inner ∧ (t.1 = false ↔ d ≤ 4 ∨ b.Opens corner s.journal.idAt) ∧
        (t.1 = true → b.Committed fluid corner s.journal t.2.journal) := by
  obtain ⟨d, hd, hrun⟩ := run_build fluid p s
  have hb : (draw.run s).1.Inner := inner_drawn s
  refine ⟨d, hd, hb, ?_⟩
  rw [hrun]
  split
  · rename_i hlow
    exact ⟨iff_of_true rfl (.inl hlow), fun h => absurd h Bool.false_ne_true⟩
  · rename_i hhigh
    have hjournal : (draw.run s).2.journal = s.journal := inspects_draw.journal_run s
    have hsettled := run_settle fluid ⟨p.x - 8, d - 4, p.z - 8⟩ hb (draw.run s).2
    rw [hjournal] at hsettled
    rw [or_iff_right hhigh]
    exact hsettled

/-- In solid rock there is always room for a lake, whatever its basin. -/
theorem lake_in_rock :
    let s : Site := ⟨.ofWorld (.ofLayers 0 [(.plain .stone, 64)]), .ofSeed 5, #[]⟩
    let t := (build .stillWater ⟨8, 40, 8⟩).run s
    t.1 = true ∧ (draw.run s).1.Committed .stillWater ⟨0, 36, 0⟩ s.journal t.2.journal := by
  intro s
  have hdry (q : Pos) : (s.journal.idAt q).isFluid = false := by
    cases hq : q.inHeight
    · have hair : s.journal.idAt q = .air := by simp [Journal.idAt, World.idAt, hq]
      rw [hair]
      decide
    · have hid : s.journal.idAt q = (Profile.layerAt [(.plain .stone, 64)] q.y.toInt.toNat).id :=
        World.idAt_ofLayers 0 _ hq
      rw [hid, Profile.layerAt_cons, Profile.layerAt_nil]
      split
      · decide
      · decide
  have hcommitted := basin_is_committed_exactly .stillWater ⟨8, 40, 8⟩ s
  dsimp only at hcommitted ⊢
  generalize (build .stillWater ⟨8, 40, 8⟩).run s = t at hcommitted ⊢
  obtain ⟨d, hd, -, hrefused, hbuilt⟩ := hcommitted
  have hrock : s.journal.idAt ⟨0, 40, 0⟩ ≠ .air := by decide +kernel
  have hground : d = 40 := Int32.le_antisymm hd.1.1 (hd.2 ⟨Int32.le_refl _, .inr hrock⟩)
  subst hground
  have htrue : t.1 = true := by
    by_contra hfalse
    rcases hrefused.1 (Bool.eq_false_iff.2 hfalse) with hlow | ⟨x, y, z, -, -, hfluid⟩
    · exact absurd hlow (by decide)
    · rw [hdry] at hfluid
      cases hfluid
  exact ⟨htrue, hbuilt htrue⟩

end LakeBasin

end VoxelFeatures
