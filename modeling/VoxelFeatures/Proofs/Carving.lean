import Mathlib.Data.Set.Card
import VoxelFeatures.Proofs.Edits
import VoxelFeatures.Proofs.Layers
import VoxelFeatures.Proofs.NearFeatures
import VoxelFeatures.Proofs.Overgrowth
import VoxelFeatures.Proofs.Sweep

/-!
# Dungeons carved at once

A dungeon is carved cell by cell, and a wall cell opens where the cell below it is air. A
column is carved from the top down, so that cell has not been carved yet: what becomes of
each cell follows from the world as it was before, and the room could as well be carved at
once. Floor and ceiling have no hole, so a dungeon that is built lies within the height of
the world, even on its bottom layer, where the cells below the floor read as air.
-/

namespace VoxelFeatures

namespace Dungeon

namespace Room

/-- The room that is drawn from a stream. -/
def drawn (p : Pos) (σ : Stream) : Room :=
  let first := σ.bounded 2
  ⟨p, first.1 + 2, (first.2.bounded 2).1 + 2⟩

/-- The position is in the box of the room, walls, floor and ceiling included. -/
structure Has (r : Room) (q : Pos) : Prop where
  x : r.low.x ≤ q.x ∧ q.x ≤ r.high.x
  y : r.low.y ≤ q.y ∧ q.y ≤ r.high.y
  z : r.low.z ≤ q.z ∧ q.z ≤ r.high.z

/-- The position is in a column of the walls. -/
def OnWall (r : Room) (q : Pos) : Prop :=
  q.x = r.low.x ∨ q.x = r.high.x ∨ q.z = r.low.z ∨ q.z = r.high.z

/-- The position is strictly inside the walls and above the floor. -/
def Encloses (r : Room) (q : Pos) : Prop :=
  (r.low.x < q.x ∧ q.x < r.high.x) ∧ r.low.y < q.y ∧ r.low.z < q.z ∧ q.z < r.high.z

/-- The position is a hole in the floor or the ceiling. -/
def IsHole (r : Room) (ids : Pos → BlockId) (q : Pos) : Prop :=
  (q.y = r.low.y ∨ q.y = r.high.y) ∧ ids q = .air

/-- The position is an opening of a wall onto a cave two cells high. -/
def IsMouth (r : Room) (ids : Pos → BlockId) (q : Pos) : Prop :=
  q.y = r.origin.y ∧ r.OnWall q ∧ ids q = .air ∧ ids (q.up 1) = .air

/-- Floor and ceiling have no hole. -/
def Whole (r : Room) (ids : Pos → BlockId) : Prop := ∀ q, r.Has q → ¬r.IsHole ids q

/-- The openings of the walls. -/
def mouths (r : Room) (ids : Pos → BlockId) : Set Pos := {q | r.Has q ∧ r.IsMouth ids q}

instance (r : Room) (q : Pos) : Decidable (r.OnWall q) := inferInstanceAs (Decidable (_ ∨ _))

instance (r : Room) (q : Pos) : Decidable (r.Encloses q) := inferInstanceAs (Decidable (_ ∧ _))

instance (r : Room) (ids : Pos → BlockId) (q : Pos) : Decidable (r.IsHole ids q) :=
  inferInstanceAs (Decidable (_ ∧ _))

instance (r : Room) (ids : Pos → BlockId) (q : Pos) : Decidable (r.IsMouth ids q) :=
  inferInstanceAs (Decidable (_ ∧ _))

/-- What becomes of a cell that is carved, by the ids that there were before. -/
def Comes (r : Room) (ids : Pos → BlockId) (q : Pos) (id : BlockId) : Prop :=
  if r.Encloses q then id = if ids q = .chest then .chest else .air
  else if ids (q.down 1) = .air then id = .air
  else if ids q = .air ∨ ids q = .chest then id = ids q
  else id = .cobblestone ∨ q.y = r.low.y ∧ id = .mossStone

variable {r : Room} {ids : Pos → BlockId} {p q : Pos}

theorem isWall_iff : r.isWall q.x q.z ↔ r.OnWall q := by
  simp [isWall, OnWall, or_assoc]

theorem isInside_iff (h : r.Has q) : isInside r q ↔ r.Encloses q := by
  have hwall : (!r.isWall q.x q.z) = true ↔ ¬r.OnWall q := by
    rw [Bool.not_eq_true', ← Bool.not_eq_true, isWall_iff]
  have hlow {a b : Int32} (hab : a ≤ b) : b ≠ a ↔ a < b := by lia
  have hhigh {a b : Int32} (hab : a ≤ b) : a ≠ b ↔ a < b := by lia
  rw [isInside, Bool.and_eq_true, hwall, decide_eq_true_eq, hlow h.y.1, OnWall, Encloses,
    not_or, not_or, not_or]
  change (q.x ≠ r.low.x ∧ q.x ≠ r.high.x ∧ q.z ≠ r.low.z ∧ q.z ≠ r.high.z) ∧ _ ↔ _
  rw [hlow h.x.1, hhigh h.x.2, hlow h.z.1, hhigh h.z.2]
  exact ⟨fun ⟨⟨hx, hx', hz⟩, hy⟩ => ⟨⟨hx, hx'⟩, hy, hz⟩,
    fun ⟨⟨hx, hx'⟩, hy, hz⟩ => ⟨⟨hx, hx', hz⟩, hy⟩⟩

theorem mem_scanOrder : q ∈ scanOrder r ↔ r.Has q := by
  simp only [scanOrder, List.mem_flatMap, List.mem_map, spanX, spanY, spanZ, Span.mem_closed]
  constructor
  · rintro ⟨x, hx, y, hy, z, hz, rfl⟩
    exact ⟨hx, hy, hz⟩
  · exact fun h => ⟨q.x, h.x, q.y, h.y, q.z, h.z, rfl⟩

theorem mem_carvedY {y : Int32} : y ∈ r.carvedY.toList ↔ r.low.y ≤ y ∧ y < r.high.y := by
  rw [carvedY, Span.toList_reverse, List.mem_reverse, Span.mem_halfOpen]

theorem mem_carveOrder : q ∈ carveOrder r ↔ r.Has q ∧ q.y < r.high.y := by
  simp only [carveOrder, List.mem_flatMap, List.mem_map, spanX, mem_carvedY, spanZ, Span.mem_closed]
  constructor
  · rintro ⟨x, hx, y, hy, z, hz, rfl⟩
    exact ⟨⟨hx, ⟨hy.1, Int32.le_of_lt hy.2⟩, hz⟩, hy.2⟩
  · rintro ⟨h, hy⟩
    exact ⟨q.x, h.x, q.y, ⟨h.y.1, hy⟩, q.z, h.z, rfl⟩

theorem nodup_scanOrder (r : Room) : (scanOrder r).Nodup := by
  have hwalk := pairwise_nested (Span.pairwise_closed r.low.x r.high.x)
    (Span.pairwise_closed r.low.y r.high.y) (Span.pairwise_closed r.low.z r.high.z) Pos.mk
  refine List.Pairwise.imp ?_ hwalk
  rintro _ _ ⟨x, y, z, x', y', z', rfl, rfl, hlt⟩ hcell
  cases hcell
  rcases hlt with hx | ⟨-, hy | ⟨-, hz⟩⟩
  · exact Int32.lt_irrefl hx
  · exact Int32.lt_irrefl hy
  · exact Int32.lt_irrefl hz

/-- The openings are counted as often as the scan meets them. -/
theorem ncard_mouths (r : Room) (ids : Pos → BlockId) :
    (r.mouths ids).ncard = (scanOrder r).countP fun q => r.IsMouth ids q := by
  have hset : r.mouths ids = ↑((scanOrder r).filter fun q => r.IsMouth ids q).toFinset := by
    ext q
    simp [mouths, mem_scanOrder]
  rw [hset, Set.ncard_coe_finset, List.toFinset_card_of_nodup ((nodup_scanOrder r).filter _),
    List.countP_eq_length_filter]

end Room

open Room Build

variable {r : Room} {q : Pos}

/-! ## The scan -/

theorem run_scanCell (q : Pos) (n : Nat) (s : Site) :
    (scanCell r q n).run s =
      (if r.IsHole s.journal.idAt q then none
        else some (n + if r.IsMouth s.journal.idAt q then 1 else 0), s) := by
  rw [scanCell, run_bind, isAir, run_isBlock]
  simp only [Bool.and_eq_true, decide_eq_true_eq, isWall_iff]
  split
  · rename_i hfloor
    rw [if_pos (show r.IsHole _ q from ⟨.inl hfloor.1, hfloor.2⟩)]
    rfl
  · rename_i hfloor
    split
    · rename_i hceiling
      rw [if_pos (show r.IsHole _ q from ⟨.inr hceiling.1, hceiling.2⟩)]
      rfl
    · rename_i hceiling
      have hwhole : ¬r.IsHole s.journal.idAt q :=
        fun hhole => hhole.1.elim (fun hy => hfloor ⟨hy, hhole.2⟩) fun hy => hceiling ⟨hy, hhole.2⟩
      rw [if_neg hwhole]
      split
      · rename_i hwall
        obtain ⟨⟨hy, hcolumn⟩, hair⟩ := hwall
        by_cases hup : s.journal.idAt (q.up 1) = .air
        · rw [if_pos (show r.IsMouth _ q from ⟨hy, hcolumn, hair, hup⟩)]
          simp [isAir, run_bind, hup]
        · rw [if_neg fun hmouth : r.IsMouth _ q => hup hmouth.2.2.2]
          simp [isAir, run_bind, hup]
      · rename_i hwall
        rw [if_neg fun hmouth : r.IsMouth _ q => hwall ⟨⟨hmouth.1, hmouth.2.1⟩, hmouth.2.2.1⟩]
        rfl

theorem run_scanAll (ps : List Pos) (n : Nat) (s : Site) :
    (scanAll r ps n).run s =
      (if ∃ q ∈ ps, r.IsHole s.journal.idAt q then none
        else some (n + ps.countP fun q => r.IsMouth s.journal.idAt q), s) := by
  induction ps generalizing n with
  | nil => simp [scanAll]
  | cons q ps ih =>
      rw [scanAll, run_bind, run_scanCell]
      by_cases hhole : r.IsHole s.journal.idAt q
      · simp [hhole]
      · simp [hhole, ih, List.countP_cons, Nat.add_assoc, Nat.add_comm]

theorem run_openings (r : Room) (s : Site) :
    (openings? r).run s =
      (if ∃ q ∈ scanOrder r, r.IsHole s.journal.idAt q then none
        else some (r.mouths s.journal.idAt).ncard, s) := by
  rw [openings?, run_scanAll, ncard_mouths, Nat.zero_add]

/-! ## The carving -/

/-- A room whose box lies within the height of the world. -/
structure Room.Stands (r : Room) : Prop where
  low : r.low.y.toInt = r.origin.y.toInt - 1
  high : r.high.y.toInt = r.origin.y.toInt + 4
  bottom : 0 ≤ r.low.y.toInt
  top : r.high.y.toInt < 256

namespace Room

/-- Where floor and ceiling are whole and some wall opens, there is room. -/
theorem stands_of_whole {j : Journal} (hwhole : r.Whole j.idAt) (hq : q ∈ r.mouths j.idAt) :
    r.Stands := by
  obtain ⟨hbox, hlayer, -⟩ := hq
  have hone : (1 : Int32).toInt = 1 := Int32.toInt_one
  have hfour : (4 : Int32).toInt = 4 := by decide
  have hrange := toInt_range r.origin.y
  have hybox := hbox.y
  rw [hlayer, Int32.le_iff_toInt_le, Int32.le_iff_toInt_le] at hybox
  have hlow : r.low.y.toInt = r.origin.y.toInt - 1 := by
    have hwraps : (r.origin.y - 1).toInt ≤ r.origin.y.toInt := hybox.1
    change (r.origin.y - 1).toInt = _
    rw [Int32.toInt_sub, hone] at hwraps ⊢
    simp only [Int.bmod] at hwraps ⊢
    omega
  have hhigh : r.high.y.toInt = r.origin.y.toInt + 4 := by
    have hwraps : r.origin.y.toInt ≤ (r.origin.y + 4).toInt := hybox.2
    change (r.origin.y + 4).toInt = _
    rw [Int32.toInt_add, hfour] at hwraps ⊢
    simp only [Int.bmod] at hwraps ⊢
    omega
  have hheight {y : Int32} (hy : r.low.y ≤ y ∧ y ≤ r.high.y) (hend : y = r.low.y ∨ y = r.high.y) :
      0 ≤ y.toInt ∧ y.toInt < 256 := by
    refine Pos.inHeight_iff_toInt.1 (j.inHeight_of_idAt_ne (p := ⟨q.x, y, q.z⟩) fun hair => ?_)
    exact hwhole ⟨q.x, y, q.z⟩ ⟨hbox.x, hy, hbox.z⟩ ⟨hend, hair⟩
  have hends : r.low.y ≤ r.high.y := Int32.le_trans hbox.y.1 hbox.y.2
  exact ⟨hlow, hhigh, (hheight ⟨Int32.le_refl _, hends⟩ (.inl rfl)).1,
    (hheight ⟨hends, Int32.le_refl _⟩ (.inr rfl)).2⟩

theorem Stands.inHeight (h : r.Stands) (hq : r.Has q) : q.inHeight := by
  have hlow := Int32.le_iff_toInt_le.1 hq.y.1
  have hhigh := Int32.le_iff_toInt_le.1 hq.y.2
  have hbottom := h.bottom
  have htop := h.top
  rw [Pos.inHeight_iff_toInt]
  omega

end Room

/-- A carved cell looks at itself and at the cell below, which is carved later. -/
theorem pairwise_carveOrder (hstands : r.Stands) :
    (carveOrder r).Pairwise fun i j => i ≠ j ∧ ¬(i = j ∨ i = j.down 1) := by
  have hdown : r.carvedY.toList.Pairwise fun y y' => y' < y := by
    rw [carvedY, Span.toList_reverse, List.pairwise_reverse]
    exact Span.pairwise_halfOpen _ _
  have hwalk := pairwise_nested (Span.pairwise_closed r.low.x r.high.x) hdown
    (Span.pairwise_closed r.low.z r.high.z) Pos.mk
  refine List.Pairwise.imp_of_mem ?_ hwalk
  rintro _ _ - hj ⟨x, y, z, x', y', z', rfl, rfl, hlt⟩
  have hself : (⟨x, y, z⟩ : Pos) ≠ ⟨x', y', z'⟩ := fun hcell => by
    cases hcell
    rcases hlt with hx | ⟨-, hy | ⟨-, hz⟩⟩
    · exact Int32.lt_irrefl hx
    · exact Int32.lt_irrefl hy
    · exact Int32.lt_irrefl hz
  refine ⟨hself, not_or.2 ⟨hself, fun hcell => ?_⟩⟩
  cases hcell
  rcases hlt with hx | ⟨-, hy | ⟨-, hz⟩⟩
  · exact Int32.lt_irrefl hx
  · -- the cell below would be the higher one of the two, as the box does not wrap
    have hone : (1 : Int32).toInt = 1 := Int32.toInt_one
    have hbottom := hstands.bottom
    have hlow : r.low.y.toInt ≤ y'.toInt :=
      Int32.le_iff_toInt_le.1 (mem_carveOrder.1 hj).1.y.1
    have hrange := toInt_range y'
    rw [Int32.lt_iff_toInt_lt, Int32.toInt_sub, hone] at hy
    simp only [Int.bmod] at hy
    omega
  · exact Int32.lt_irrefl hz

theorem returns_masonry {q : Pos} {id : BlockId} (h : (masonry r q).Returns id) :
    id = .cobblestone ∨ q.y = r.low.y ∧ id = .mossStone := by
  rw [masonry] at h
  split at h
  · rename_i hfloor
    obtain ⟨u, -, hu⟩ := (returns_bind ..).1 h
    split at hu
    · exact .inr ⟨hfloor, hu⟩
    · exact .inl hu
  · exact .inl h

/-- A cell of the masonry keeps air and chests, and all else turns to stone. -/
theorem comes_masonry {q : Pos} (hq : q.inHeight) (s : Site) :
    let t := ((do unless ← isIn (.ofList [.air, .chest]) q do
      place q (.plain (← masonry r q)) : Build Unit).run s).2
    if s.journal.idAt q = .air ∨ s.journal.idAt q = .chest then
      t.journal.idAt q = s.journal.idAt q
    else t.journal.idAt q = .cobblestone ∨ q.y = r.low.y ∧ t.journal.idAt q = .mossStone := by
  intro t
  by_cases hkept : s.journal.idAt q = .air ∨ s.journal.idAt q = .chest
  · have hrun : t = s := by simp [t, isIn, run_bind, hkept]
    rw [if_pos hkept, hrun]
  · let u := (masonry r q).run s
    have hrun : t = u.2.place q (.plain u.1) false := by
      simp [t, u, isIn, run_bind, hkept]
    rw [if_neg hkept, hrun, u.2.idAt_place_self hq]
    exact returns_masonry (returns_run _ s)

theorem comes_carve {q : Pos} (hbox : r.Has q) (hq : q.inHeight) (s : Site) :
    r.Comes s.journal.idAt q (((carve r q).run s).2.journal.idAt q) := by
  have hbottom : 0 ≤ q.y := (Pos.inHeight_iff.1 hq).1
  rw [carve, Comes]
  by_cases hinside : r.Encloses q
  · rw [if_pos ((isInside_iff hbox).2 hinside), if_pos hinside, run_bind, run_isBlock]
    by_cases hchest : s.journal.idAt q = .chest
    · simp [hchest]
    · simp [hchest, s.idAt_place_self hq, Block.air, Block.plain]
  · rw [if_neg (mt (isInside_iff hbox).1 hinside), if_neg hinside, if_pos hbottom, run_bind,
      isAir, run_isBlock]
    by_cases hhollow : s.journal.idAt (q.down 1) = .air
    · rw [if_pos hhollow, decide_eq_true hhollow]
      exact s.idAt_place_self hq .air false
    · rw [if_neg hhollow, decide_eq_false hhollow]
      exact comes_masonry hq s

theorem cellwise_carve (h : r.Stands) :
    Cellwise (carveOrder r) (carve r) id (fun j q => q = j ∨ q = j.down 1)
      fun q ids j => r.Comes ids q (j.idAt q) := by
  refine ⟨fun q _ => ?_, fun q hq s => ?_, fun q ids ids' j hids => ?_, fun q ids => ?_⟩
  · simp [carve, masonry]
  · have hbox := (mem_carveOrder.1 hq).1
    exact comes_carve hbox (h.inHeight hbox) s
  · simp only [Comes, hids q (.inl rfl), hids (q.down 1) (.inr rfl)]
    exact id
  · exact settles_idAt q (r.Comes ids q)

/-- A room is built where floor and ceiling are whole and the walls have between one and
five openings. -/
def Room.Admitted (r : Room) (ids : Pos → BlockId) : Prop :=
  r.Whole ids ∧ 1 ≤ (r.mouths ids).ncard ∧ (r.mouths ids).ncard ≤ 5

/-- What the ids in and around a room come to. -/
structure Room.Carved (r : Room) (ids ids' : Pos → BlockId) : Prop where
  spawner : ids' r.origin = .monsterSpawner
  cells : ∀ q, q ≠ r.origin → r.Has q → q.y < r.high.y → r.Comes ids q (ids' q)
  others : ∀ q, q ≠ r.origin → ¬(r.Has q ∧ q.y < r.high.y) → ids' q = ids q
  doorways : ∀ q, r.Has q → r.OnWall q → q.y = r.origin.y → ids q = .air →
    ids' q = .air ∧ ids' (q.up 1) = .air

namespace Room

variable {ids : Pos → BlockId} {id : BlockId}

theorem OnWall.not_encloses (h : r.OnWall q) : ¬r.Encloses q := by
  rintro ⟨⟨hlow, hhigh⟩, -, hlow', hhigh'⟩
  rcases h with h | h | h | h
  · exact Int32.lt_irrefl (h ▸ hlow)
  · exact Int32.lt_irrefl (h ▸ hhigh)
  · exact Int32.lt_irrefl (h ▸ hlow')
  · exact Int32.lt_irrefl (h ▸ hhigh')

/-- The middle of a room is no part of its walls. -/
theorem OnWall.ne_origin (h : r.OnWall q) (hr : r.Small) : q ≠ r.origin := by
  rintro rfl
  have hside (c radius : Int32) (hradius : 2 ≤ radius ∧ radius ≤ 3) :
      ¬(c = c - (radius + 1) ∨ c = c + (radius + 1)) := by
    have hcases : radius = 2 ∨ radius = 3 := by lia
    rcases hcases with rfl | rfl
    · grind
    · grind
  rcases h with h | h | h | h
  · exact hside r.origin.x r.radiusX hr.radiusX (.inl h)
  · exact hside r.origin.x r.radiusX hr.radiusX (.inr h)
  · exact hside r.origin.z r.radiusZ hr.radiusZ (.inl h)
  · exact hside r.origin.z r.radiusZ hr.radiusZ (.inr h)

/-- A wall cell above air opens. -/
theorem Comes.eq_air_of_below (h : r.Comes ids q id) (hwall : r.OnWall q)
    (hbelow : ids (q.down 1) = .air) : id = .air := by
  rwa [Comes, if_neg hwall.not_encloses, if_pos hbelow] at h

/-- Wall cells that were air stay so. -/
theorem Comes.eq_air (h : r.Comes ids q id) (hwall : r.OnWall q) (hair : ids q = .air) :
    id = .air := by
  rw [Comes, if_neg hwall.not_encloses] at h
  split at h
  · exact h
  · rw [if_pos (.inl hair)] at h
    exact h.trans hair

namespace Stands

theorem inHeight_origin (h : r.Stands) : r.origin.inHeight := by
  have hlow := h.low
  have hhigh := h.high
  have hbottom := h.bottom
  have htop := h.top
  rw [Pos.inHeight_iff_toInt]
  omega

/-- The layer of the origin and the one above it are carved. -/
theorem lt_high (h : r.Stands) (hq : q.y = r.origin.y) : q.y < r.high.y := by
  rw [Int32.lt_iff_toInt_lt, hq, h.high]
  omega

theorem up (h : r.Stands) (hbox : r.Has q) (hq : q.y = r.origin.y) :
    r.Has (q.up 1) ∧ (q.up 1).y < r.high.y := by
  have hlow := h.low
  have hhigh := h.high
  have hbottom := h.bottom
  have htop := h.top
  have hup : (q.up 1).y.toInt = r.origin.y.toInt + 1 := by
    rw [Pos.up, hq]
    exact toInt_add_one (by omega)
  refine ⟨⟨hbox.x, ⟨?_, ?_⟩, hbox.z⟩, ?_⟩
  · rw [Int32.le_iff_toInt_le, hup]
    omega
  · rw [Int32.le_iff_toInt_le, hup]
    omega
  · rw [Int32.lt_iff_toInt_lt, hup]
    omega

end Stands

end Room

/-- The carving and the spawner in the middle. -/
theorem carved_of_admitted (hr : r.Small) {s : Site} (h : r.Admitted s.journal.idAt) :
    let t := ((forM (carveOrder r) (carve r)).run s).2.place r.origin (.plain .monsterSpawner) false
    r.Carved s.journal.idAt t.journal.idAt := by
  intro t
  obtain ⟨hwhole, hsome, -⟩ := h
  obtain ⟨m, hm⟩ := Set.nonempty_of_ncard_ne_zero (Nat.one_le_iff_ne_zero.1 hsome)
  have hstands : r.Stands := stands_of_whole hwhole hm
  have hwalk := cellwise_carve hstands
  have hne {q : Pos} (hq : q ≠ r.origin) :
      t.journal.idAt q = ((forM (carveOrder r) (carve r)).run s).2.journal.idAt q := by
    rw [Site.idAt_place, if_neg fun hcell => hq hcell.2]
  have hcells (q : Pos) (hq : q ≠ r.origin) (hbox : r.Has q) (hy : q.y < r.high.y) :
      r.Comes s.journal.idAt q (t.journal.idAt q) := by
    rw [hne hq]
    exact hwalk.out_forM (pairwise_carveOrder hstands) s q (mem_carveOrder.2 ⟨hbox, hy⟩)
  refine ⟨Site.idAt_place_self _ hstands.inHeight_origin _ false, hcells, fun q hq hout => ?_, ?_⟩
  · rw [hne hq]
    refine hwalk.only_forM.idAt_run (fun ⟨i, hi, hiq⟩ => hout ?_) s
    exact mem_carveOrder.1 (hiq ▸ hi)
  · intro q hbox hwall hlayer hair
    obtain ⟨hupBox, hupHigh⟩ := hstands.up hbox hlayer
    have hdown : (q.up 1).down 1 = q := by rw [Pos.up, Pos.down, Int32.add_sub_cancel]
    have hwallUp : r.OnWall (q.up 1) := hwall
    refine ⟨(hcells q (hwall.ne_origin hr) hbox (hstands.lt_high hlayer)).eq_air hwall hair, ?_⟩
    refine (hcells _ (hwallUp.ne_origin hr) hupBox hupHigh).eq_air_of_below hwallUp ?_
    rwa [hdown]

/-! ## The dungeon -/

/-- What a dungeon does after its scan. -/
def finish (r : Room) : Option Nat → Build Bool
  | none => return false
  | some openings =>
      if openings < 1 ∨ 5 < openings then do
        report (.dungeonRejected r.origin openings)
        return false
      else do
        (carveOrder r).forM (carve r)
        place r.origin (.plain .monsterSpawner)
        report (.dungeonPlaced r.origin (sideLength r.radiusX) (sideLength r.radiusZ))
        return true

theorem build_eq (p : Pos) :
    build p = (bounded 2 >>= fun u => bounded 2 >>= fun v =>
      openings? ⟨p, u + 2, v + 2⟩ >>= finish ⟨p, u + 2, v + 2⟩) := by
  rw [build]
  refine bind_congr fun u => bind_congr fun v => bind_congr fun found => ?_
  cases found with
  | none => rfl
  | some openings => rfl

/-- A dungeon is refused, or carved and given its spawner. -/
theorem run_finish (hr : r.Small) (s : Site) :
    let t := (finish r ((openings? r).run s).1).run s
    (t.1 = true ↔ r.Admitted s.journal.idAt) ∧
      (t.1 = true → r.Carved s.journal.idAt t.2.journal.idAt) := by
  intro t
  let n := (r.mouths s.journal.idAt).ncard
  have hwhole : r.Whole s.journal.idAt ↔ ¬∃ q ∈ scanOrder r, r.IsHole s.journal.idAt q := by
    simp [Room.Whole, mem_scanOrder]
  have hrefused (hfalse : t.1 = false) (hnot : ¬r.Admitted s.journal.idAt) :
      (t.1 = true ↔ r.Admitted s.journal.idAt) ∧
        (t.1 = true → r.Carved s.journal.idAt t.2.journal.idAt) := by
    have hbuilt : ¬t.1 = true := Bool.eq_false_iff.1 hfalse
    exact ⟨iff_of_false hbuilt hnot, fun h => absurd h hbuilt⟩
  by_cases hhole : ∃ q ∈ scanOrder r, r.IsHole s.journal.idAt q
  · have hscan : ((openings? r).run s).1 = none := by rw [run_openings, if_pos hhole]
    exact hrefused (by simp [t, hscan, finish]) fun h => hwhole.1 h.1 hhole
  · have hscan : ((openings? r).run s).1 = some n := by rw [run_openings, if_neg hhole]
    by_cases hn : n < 1 ∨ 5 < n
    · refine hrefused ?_ fun h => ?_
      · simp only [t, hscan, finish, if_pos hn]
        rfl
      · have hrange : 1 ≤ n ∧ n ≤ 5 := h.2
        omega
    · have hadmitted : r.Admitted s.journal.idAt := ⟨hwhole.2 hhole, by omega, by omega⟩
      have hbuilt : t.1 = true ∧ t.2.journal = (((forM (carveOrder r) (carve r)).run s).2.place
          r.origin (.plain .monsterSpawner) false).journal := by
        simp only [t, hscan, finish, if_neg hn, List.forM_eq_forM, run_bind, run_place, run_report,
          pure_eq, run_done, and_self]
      refine ⟨iff_of_true hbuilt.1 hadmitted, fun _ => ?_⟩
      rw [hbuilt.2]
      exact carved_of_admitted hr hadmitted

/-- The draws come first, and leave the world as it was. -/
theorem run_build (p : Pos) (s : Site) :
    ∃ u : Site, u.journal = s.journal ∧ (build p).run s =
      (finish (Room.drawn p s.stream) ((openings? (Room.drawn p s.stream)).run u).1).run u := by
  obtain ⟨j, σ, ns⟩ := s
  refine ⟨⟨j, ((σ.bounded 2).2.bounded 2).2, ns⟩, rfl, ?_⟩
  have hscan (r : Room) (u : Site) : ((openings? r).run u).2 = u := by rw [run_openings]
  rw [build_eq, run_bounded_bind, run_bounded_bind, run_bind, hscan, Room.drawn]

theorem Room.small_drawn (p : Pos) (σ : Stream) : (drawn p σ).Small := by
  have hside (σ : Stream) : 2 ≤ (σ.bounded 2).1 + 2 ∧ (σ.bounded 2).1 + 2 ≤ 3 := by
    obtain ⟨hlow, hhigh⟩ := Stream.bounded_range (by decide : 0 < (2 : Int32)) σ
    generalize (σ.bounded 2).1 = u at hlow hhigh
    lia
  exact ⟨hside σ, hside (σ.bounded 2).2⟩

/-- A dungeon is built exactly where floor and ceiling of its room are whole and the walls
have between one and five openings. It is then carved as if all at once: what each cell
comes to follows from the ids before, and no other id changes. -/
theorem carving_acts_at_once (p : Pos) (s : Site) :
    let r := Room.drawn p s.stream
    let t := (build p).run s
    r.origin = p ∧ r.Small ∧ (t.1 = true ↔ r.Admitted s.journal.idAt) ∧
      (t.1 = true → r.Carved s.journal.idAt t.2.journal.idAt) := by
  obtain ⟨u, hjournal, hrun⟩ := run_build p s
  have hr := Room.small_drawn p s.stream
  dsimp only
  rw [hrun, ← hjournal]
  exact ⟨rfl, hr, run_finish hr u⟩

/-- A dungeon on the bottom layer keeps a chest, and has holes in the floor below its
walls, where the world ends. -/
theorem dungeon_on_bottom_layer :
    let w := (World.ofLayers 0 [(.plain .stone, 8)]).edit
      [.place ⟨4, 1, 0⟩ .air false, .place ⟨4, 2, 0⟩ .air false,
        .place ⟨1, 2, 1⟩ (.plain .chest) false]
    let s : Site := ⟨.ofWorld w, .ofSeed 1, #[]⟩
    let t := (build ⟨0, 1, 0⟩).run s
    t.1 = true ∧ t.2.journal.idAt ⟨0, 1, 0⟩ = .monsterSpawner ∧
      t.2.journal.idAt ⟨1, 2, 1⟩ = .chest ∧ t.2.journal.idAt ⟨-4, 0, 0⟩ = .air := by
  intro w s
  have hfirst : (s.stream.bounded 2).1 = 1 := by decide +kernel
  have hsecond : ((s.stream.bounded 2).2.bounded 2).1 = 0 := by decide +kernel
  have hroom : Room.drawn ⟨0, 1, 0⟩ s.stream = ⟨⟨0, 1, 0⟩, 3, 2⟩ := by
    rw [Room.drawn, hfirst, hsecond]
    rfl
  have hscan : ((openings? ⟨⟨0, 1, 0⟩, 3, 2⟩).run s).1 = some 1 := by decide +kernel
  have hcarved := carving_acts_at_once ⟨0, 1, 0⟩ s
  dsimp only at hcarved ⊢
  rw [hroom] at hcarved
  -- from here on the run is known by the theorem alone, and not to be unfolded
  generalize (build ⟨0, 1, 0⟩).run s = t at hcarved ⊢
  obtain ⟨-, -, hiff, hbuilt⟩ := hcarved
  rw [run_openings] at hscan
  split at hscan
  · cases hscan
  · rename_i hwhole
    have hcount := Option.some.inj hscan
    have htrue : t.1 = true := by
      refine hiff.2 ⟨fun q hq hhole => hwhole ⟨q, mem_scanOrder.2 hq, hhole⟩, ?_, ?_⟩
      · rw [hcount]
      · rw [hcount]
        decide
    have hcarved := hbuilt htrue
    have hchest := hcarved.cells ⟨1, 2, 1⟩ (by decide) ⟨by decide, by decide, by decide⟩
      (by decide)
    have hfloor := hcarved.cells ⟨-4, 0, 0⟩ (by decide) ⟨by decide, by decide, by decide⟩
      (by decide)
    have hempty : s.journal.idAt ⟨-4, -1, 0⟩ = .air := by decide +kernel
    refine ⟨htrue, hcarved.spawner, ?_, hfloor.eq_air_of_below (.inl (by decide)) hempty⟩
    have hinside : (⟨⟨0, 1, 0⟩, 3, 2⟩ : Room).Encloses ⟨1, 2, 1⟩ := by decide
    have hid : s.journal.idAt ⟨1, 2, 1⟩ = .chest := by decide +kernel
    rw [Comes, if_pos hinside, if_pos hid] at hchest
    exact hchest

end Dungeon

end VoxelFeatures
