import VoxelFeatures.Block.Id
import VoxelFeatures.World.HalfByte

/-!
# Columns and profiles

A column holds the 256 cells above one point of the ground. Ids are bytes of
their own. Metadata is packed, two cells to a byte: the cell in the even layer
has the low half of the byte and the cell above it the high half.

`put` writes a whole metadata byte into the half of a cell. The high half of
the byte, which a cell has no room for, falls off for odd layers; for even
layers it is added to the half of the cell above. Callers that write cells one
by one keep the low half only (`set`), and then a write touches its own cell
alone: `get_set` is the law of a column.

A profile has one block for each layer of untouched ground. The column that it
stands for has those of its layers that are not air.
-/

namespace VoxelFeatures

structure Column where
  ids : Vector BlockId 256
  halves : Vector UInt8 128

namespace Column

/-- A column of air. -/
def empty : Column := ⟨.replicate 256 .air, .replicate 128 0⟩

instance : Inhabited Column := ⟨empty⟩

/-- The column that holds the given blocks, less the high bits of their metadata. -/
def ofBlocks (f : Fin 256 → Block) : Column where
  ids := .ofFn fun y => (f y).id
  halves := .ofFn fun i =>
    HalfByte.withHigh (HalfByte.low (f ⟨2 * i, by omega⟩).data) (f ⟨2 * i + 1, by omega⟩).data

/-- The byte that holds the metadata of a layer. -/
def slot (y : Fin 256) : Fin 128 := ⟨y / 2, by omega⟩

/-- Whether the metadata of a layer is the low half of its byte. -/
def isEven (y : Fin 256) : Bool := y.val % 2 = 0

def idAt (c : Column) (y : Fin 256) : BlockId := c.ids[y]

/-- The metadata of the cell in layer `y`. -/
def dataAt (c : Column) (y : Fin 256) : UInt8 :=
  let i := slot y
  if isEven y then HalfByte.low c.halves[i] else HalfByte.high c.halves[i]

def get (c : Column) (y : Fin 256) : Block := ⟨c.idAt y, c.dataAt y⟩

/-- Writes `data` into the half of layer `y` of a byte. -/
def pack (y : Fin 256) (packed data : UInt8) : UInt8 :=
  if isEven y then HalfByte.withLow packed data else HalfByte.withHigh packed data

/-- Writes an id and a metadata byte. -/
def put (c : Column) (y : Fin 256) (b : Block) : Column :=
  let i := slot y
  ⟨c.ids.set y b.id, c.halves.set i (pack y c.halves[i] b.data)⟩

/-- Writes an id and the low four bits of its metadata. -/
def set (c : Column) (y : Fin 256) (b : Block) : Column := c.put y b.stored

/-- One above the highest of the first `n` layers that is not air. -/
def heightBelow (c : Column) : (n : Nat) → n ≤ 256 → Nat
  | 0, _ => 0
  | n + 1, h => if c.ids[n] = .air then c.heightBelow n (by omega) else n + 1

/-- One above the highest cell that is not air, `0` for a column of air. -/
def height (c : Column) : Nat := c.heightBelow 256 (Nat.le_refl _)

theorem idAt_put (c : Column) (y z : Fin 256) (b : Block) :
    (c.put y b).idAt z = if z = y then b.id else c.idAt z := by
  by_cases h : z = y
  · simp [h, put, idAt]
  · have : y.val ≠ z.val := fun e => h (Fin.ext e.symm)
    simp [h, put, idAt, Vector.getElem_set_ne, this]

/-- Layers share a byte in pairs of an even and an odd one. -/
theorem eq_of_slot_eq {y z : Fin 256} (hs : slot y = slot z) (he : isEven y = isEven z) :
    y = z := by
  simp only [slot, isEven, Fin.mk.injEq, decide_eq_decide] at hs he
  omega

theorem dataAt_set (c : Column) (y z : Fin 256) (b : Block) :
    (c.set y b).dataAt z = if z = y then HalfByte.low b.data else c.dataAt z := by
  have hd : b.stored.data = HalfByte.low b.data := rfl
  by_cases hs : slot y = slot z
  · by_cases he : isEven y = isEven z
    · obtain rfl := eq_of_slot_eq hs he
      cases h : isEven y <;>
        simp [set, put, dataAt, pack, h, hd, HalfByte.low_withLow, HalfByte.high_withHigh]
    · have hne : z ≠ y := fun e => he (by rw [e])
      cases hy : isEven y <;> cases hz : isEven z <;> simp [hy, hz] at he <;>
        simp [set, put, dataAt, pack, hs, hy, hz, hd, hne, HalfByte.high_withLow,
          HalfByte.low_withHigh]
  · have hne : z ≠ y := fun e => hs (by rw [e])
    have : (slot y).val ≠ (slot z).val := fun e => hs (Fin.ext e)
    simp [set, put, dataAt, hne, Vector.getElem_set_ne, this]

/-- A write is read back with four bits of metadata, and changes no other cell. -/
theorem get_set (c : Column) (y z : Fin 256) (b : Block) :
    (c.set y b).get z = if z = y then b.stored else c.get z := by
  have hi : (c.set y b).idAt z = if z = y then b.id else c.idAt z := idAt_put c y z b.stored
  rw [get, hi, dataAt_set]
  split
  · rfl
  · rfl

@[simp] theorem idAt_ofBlocks (f : Fin 256 → Block) (y : Fin 256) :
    (ofBlocks f).idAt y = (f y).id := by
  simp [ofBlocks, idAt]

@[simp] theorem dataAt_ofBlocks (f : Fin 256 → Block) (y : Fin 256) :
    (ofBlocks f).dataAt y = HalfByte.low (f y).data := by
  have hy : y.val = 2 * (y.val / 2) + y.val % 2 := (Nat.div_add_mod y.val 2).symm
  cases h : isEven y
  · have : y = ⟨2 * (y.val / 2) + 1, by omega⟩ := by
      simp only [isEven, decide_eq_false_iff_not] at h
      exact Fin.ext (by simp only; omega)
    simp only [dataAt, ofBlocks, h, slot, Fin.getElem_fin, Vector.getElem_ofFn,
      HalfByte.high_withHigh, Bool.false_eq_true, if_false]
    rw [← this]
  · have : y = ⟨2 * (y.val / 2), by omega⟩ := by
      simp only [isEven, decide_eq_true_eq] at h
      exact Fin.ext (by simp only; omega)
    simp only [dataAt, ofBlocks, h, slot, Fin.getElem_fin, Vector.getElem_ofFn,
      HalfByte.low_withHigh, HalfByte.low_low, if_true]
    rw [← this]

/-- A column of given blocks holds them with four bits of metadata. -/
@[simp] theorem get_ofBlocks (f : Fin 256 → Block) (y : Fin 256) :
    (ofBlocks f).get y = (f y).stored := by
  simp [get, Block.stored, HalfByte.low]

end Column

/-- The blocks of the layers of untouched ground. -/
abbrev Profile := Vector Block 256

namespace Profile

/-- A profile of air. -/
def air : Profile := .replicate 256 .air

/-- Lays a list of blocks from layer `y` upwards, as far as the world is high. -/
def layFrom (p : Profile) : Nat → List Block → Profile
  | _, [] => p
  | y, b :: bs => if h : y < 256 then layFrom (p.set y b.stored) (y + 1) bs else p

/-- The blocks of a list of layers, each with its thickness, from the bottom
up. No more of them are listed than the world is high. -/
def stack (layers : List (Block × Nat)) : List Block :=
  layers.flatMap fun (b, thickness) => List.replicate (min thickness 256) b

/-- The profile of a list of layers from the bottom up. -/
def ofLayers (layers : List (Block × Nat)) : Profile := layFrom air 0 (stack layers)

/-- The column that a profile stands for. -/
def column (p : Profile) : Column := .ofBlocks fun y => if p[y].id = .air then .air else p[y]

/-- One above the highest of the first `n` layers that is not air. -/
def heightBelow (p : Profile) : (n : Nat) → n ≤ 256 → Nat
  | 0, _ => 0
  | n + 1, h => if p[n].id = .air then heightBelow p n (by omega) else n + 1

/-- One above the highest layer that is not air. -/
def height (p : Profile) : Nat := p.heightBelow 256 (Nat.le_refl _)

/-- The column that a profile stands for has its ids. -/
theorem idAt_column (p : Profile) (y : Fin 256) : (p.column.get y).id = p[y].id := by
  rw [column, Column.get_ofBlocks, Block.stored_id]
  split
  · simp_all [Block.air, Block.plain]
  · rfl

end Profile

end VoxelFeatures
