import VoxelFeatures.Proofs.Fills
import VoxelFeatures.Proofs.Retention

/-!
# Chunks of untouched ground

The first write into untouched ground makes a chunk of it. That chunk can be laid layer by
layer: a new chunk of air, into which each layer of the profile that is not air is filled,
from the bottom up. The world makes it at once, as copies of one column (`World.ground`), and
the two are the same chunk. For a layer of the profile has four bits of metadata, so that its
fill keeps the layer above it as it is, and a chunk is known from what its cells read as.
-/

namespace VoxelFeatures

namespace Column

theorem dataAt_two_mul (c : Column) {i : Nat} (hi : i < 128) :
    c.dataAt ⟨2 * i, by omega⟩ = HalfByte.low c.halves[i] := by
  have hslot : slot ⟨2 * i, by omega⟩ = ⟨i, hi⟩ := Fin.ext (by simp [slot])
  simp [dataAt, hslot, isEven]

theorem dataAt_two_mul_add_one (c : Column) {i : Nat} (hi : i < 128) :
    c.dataAt ⟨2 * i + 1, by omega⟩ = HalfByte.high c.halves[i] := by
  have hslot : slot ⟨2 * i + 1, by omega⟩ = ⟨i, hi⟩ := Fin.ext (by simp [slot]; omega)
  simp [dataAt, hslot, isEven]

/-- A column is known from what its layers read as. -/
theorem eq_of_get_eq {c d : Column} (h : ∀ y, c.get y = d.get y) : c = d := by
  have hids : c.ids = d.ids := Vector.ext fun y hy => congrArg Block.id (h ⟨y, hy⟩)
  have hdata (y : Fin 256) : c.dataAt y = d.dataAt y := congrArg Block.data (h y)
  have hhalves : c.halves = d.halves := by
    refine Vector.ext fun i hi => HalfByte.eq_of_halves_eq ?_ ?_
    · rw [← c.dataAt_two_mul hi, hdata, d.dataAt_two_mul hi]
    · rw [← c.dataAt_two_mul_add_one hi, hdata, d.dataAt_two_mul_add_one hi]
  cases c
  cases d
  simp_all

end Column

/-- Every column of a chunk has a position, with any `y`. -/
theorem Pos.exists_column_eq (k : Fin 256) (y : Int32) :
    ∃ x z : Int32, (0 ≤ x.toInt ∧ x.toInt < 16) ∧ (0 ≤ z.toInt ∧ z.toInt < 16) ∧
      (⟨x, y, z⟩ : Pos).column = k := by
  have hx : (Int32.ofInt (k / 16)).toInt = k / 16 := Int32.toInt_ofInt_of_le (by omega) (by omega)
  have hz : (Int32.ofInt (k % 16)).toInt = k % 16 := Int32.toInt_ofInt_of_le (by omega) (by omega)
  refine ⟨.ofInt (k / 16), .ofInt (k % 16), by omega, by omega, Fin.ext ?_⟩
  change ((Int32.ofInt (k / 16)).toInt % 16).toNat * 16 +
    ((Int32.ofInt (k % 16)).toInt % 16).toNat = k
  omega

/-- A chunk is known from what its cells read as. -/
theorem Chunk.eq_of_get_eq {c d : Chunk} (h : ∀ q, c.get q = d.get q) : c = d := by
  refine congrArg Chunk.mk (Vector.ext fun k hk => Column.eq_of_get_eq fun y => ?_)
  obtain ⟨x, z, -, -, hcolumn⟩ := Pos.exists_column_eq ⟨k, hk⟩ (.ofNat y)
  have hlayer : (⟨x, .ofNat y, z⟩ : Pos).layer = y := (World.stored_layer x z y.isLt).2.1
  have hq := h ⟨x, .ofNat y, z⟩
  simp only [Chunk.get, hcolumn, hlayer] at hq
  exact hq

namespace Profile

/-- A new chunk with the lowest `n` layers of a profile filled in, but for layers of air. -/
def layBelow? (p : Profile) : Nat → Option Chunk
  | 0 => some .empty
  | n + 1 => do
      let c ← p.layBelow? n
      let b ← p[n]?
      if b.id = .air then some c else c.fill? ⟨0, .ofNat n, 0⟩ ⟨16, 1, 16⟩ b

end Profile

namespace Chunk

/-- A fill of one whole layer writes that layer, and no other if the metadata has four bits. -/
theorem get_fill_layer (c : Chunk) {n : Nat} (hn : n < 256) {b : Block} (hb : b.stored = b) :
    ∃ filled, c.fill? ⟨0, .ofNat n, 0⟩ ⟨16, 1, 16⟩ b = some filled ∧
      ∀ q : Pos, filled.get q = if q.layer.val = n then b else c.get q := by
  have hzero : (0 : Int32).toInt = 0 := Int32.toInt_zero
  have hone : (1 : Int32).toInt = 1 := by decide
  have hwidth : (16 : Int32).toInt = 16 := by decide
  have hint : (Int32.ofNat n).toInt = n := Int32.toInt_ofNat_of_lt (by omega)
  have hfits : BoxFits ⟨0, .ofNat n, 0⟩ ⟨16, 1, 16⟩ := by
    constructor <;> simp only [hzero, hone, hwidth, hint] <;> omega
  have hcolumn (q : Pos) : ∃ p ∈ boxFloor ⟨0, .ofNat n, 0⟩ ⟨16, 1, 16⟩, q.column = p.column := by
    obtain ⟨x, z, hx, hz, hcolumn⟩ := Pos.exists_column_eq q.column (.ofNat n)
    refine ⟨⟨x, .ofNat n, z⟩, (mem_boxFloor hfits).2 ?_, hcolumn.symm⟩
    simp only [hzero, hwidth]
    exact ⟨by omega, trivial, by omega⟩
  have hnames (q : Pos) : NamesCell ⟨0, .ofNat n, 0⟩ ⟨16, 1, 16⟩ q ↔ q.layer.val = n := by
    rw [namesCell_iff hfits, and_iff_right (hcolumn q)]
    simp only [hint, hone]
    omega
  obtain ⟨filled, hfill, hbox, hlid, hrest⟩ := get_fill hfits c b
  refine ⟨filled, hfill, fun q => ?_⟩
  by_cases hq : q.layer.val = n
  · rw [if_pos hq, hbox q ((hnames q).2 hq), hb]
  · rw [if_neg hq]
    by_cases hon : OnLid ⟨0, .ofNat n, 0⟩ ⟨16, 1, 16⟩ q
    · have hdata : b.data >>> 4 = 0 := by
        rw [← hb]
        exact HalfByte.high_low b.data
      rw [hlid q hon, hdata, UInt8.or_zero]
    · exact hrest q (fun hin => hq ((hnames q).1 hin)) hon

end Chunk

namespace Profile

/-- The column of a profile has its layers, if they have four bits of metadata. -/
theorem get_column {p : Profile} {y : Nat} (hy : y < 256) (hp : p[y].stored = p[y]) :
    p.column.get ⟨y, hy⟩ = if p[y].id = .air then .air else p[y] := by
  rw [column, Column.get_ofBlocks]
  change (if p[y].id = .air then Block.air else p[y]).stored = _
  split
  · rfl
  · exact hp

/-- The layers that have been laid read as in the column of the profile, and those above them
are air. -/
theorem get_layBelow {p : Profile} (hp : ∀ (y : Nat) (hy : y < 256), p[y].stored = p[y])
    {n : Nat} (hn : n ≤ 256) :
    ∃ c, p.layBelow? n = some c ∧
      ∀ q : Pos, c.get q = if q.layer.val < n then p.column.get q.layer else .air := by
  induction n with
  | zero => exact ⟨.empty, rfl, fun q => by rw [Chunk.get_empty, if_neg (Nat.not_lt_zero _)]⟩
  | succ n ih =>
      obtain ⟨c, hlaid, hget⟩ := ih (by omega)
      have hcolumn := get_column hn (hp n hn)
      -- the layers below `n` are laid already, and the layer `n` still is air
      have hlay (q : Pos) : (if q.layer.val < n + 1 then p.column.get q.layer else .air) =
          if q.layer.val = n then p.column.get ⟨n, hn⟩ else c.get q := by
        rw [hget]
        by_cases hq : q.layer.val = n
        · have hlayer : q.layer = ⟨n, hn⟩ := Fin.ext hq
          rw [hlayer, if_pos (Nat.lt_succ_self n), if_pos rfl]
        · have hlt : q.layer.val < n + 1 ↔ q.layer.val < n := by omega
          simp only [hlt, hq, if_false]
      rw [layBelow?, hlaid, Vector.getElem?_eq_getElem hn]
      simp only [Option.bind_eq_bind, Option.bind_some]
      by_cases hair : p[n].id = .air
      · refine ⟨c, if_pos hair, fun q => ?_⟩
        rw [hlay, hcolumn, if_pos hair]
        split
        · rename_i hq
          rw [hget, if_neg (by omega)]
        · rfl
      · obtain ⟨filled, hfill, hfilled⟩ := c.get_fill_layer hn (hp n hn)
        refine ⟨filled, (if_neg hair).trans hfill, fun q => ?_⟩
        rw [hlay, hcolumn, if_neg hair, hfilled]

/-- Laid layer by layer, the chunk of a profile comes to copies of its column. -/
theorem layBelow_eq_uniform {p : Profile}
    (hp : ∀ (y : Nat) (hy : y < 256), p[y].stored = p[y]) :
    p.layBelow? 256 = some (.uniform p.column) := by
  obtain ⟨c, hlay, hget⟩ := get_layBelow hp (Nat.le_refl 256)
  rw [hlay]
  refine congrArg some (Chunk.eq_of_get_eq fun q => ?_)
  rw [hget, if_pos q.layer.isLt, Chunk.get_uniform]

end Profile

/-- The chunk that the first write into untouched ground makes is the one that is laid layer by
layer, in every world that was made from layers and edited since. -/
theorem World.Made.layBelow_eq_ground {w : World} (hw : w.Made) :
    w.profile.layBelow? 256 = some w.ground :=
  Profile.layBelow_eq_uniform hw.packed

end VoxelFeatures
