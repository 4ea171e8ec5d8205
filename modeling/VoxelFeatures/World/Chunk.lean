import VoxelFeatures.Grid.Pos
import VoxelFeatures.Grid.Span
import VoxelFeatures.World.Column

/-!
# Chunks

A chunk holds sixteen by sixteen columns. Positions address it by their
remainders modulo 16, so every position of the world names a cell of every
chunk. The cells are numbered column by column, `x` before `z`, and within a
column from the bottom up.

A fill writes a box of cells. It addresses the bottom cell of each column of
the box and goes on upwards by cell number, so a box that reaches above the top
of a column continues at the bottom of the next one, and one that reaches past
the last cell of the chunk has no result.
-/

namespace VoxelFeatures

/-- The place of a chunk in the world. -/
structure ChunkPos where
  x : Int32
  z : Int32
deriving DecidableEq, Repr, Inhabited

namespace ChunkPos

/-- Chunks are ordered by `x`, then `z`. -/
instance : Ord ChunkPos := ⟨compareLex (compareOn x) (compareOn z)⟩

instance : Std.TransOrd ChunkPos :=
  inferInstanceAs (Std.TransCmp (compareLex (compareOn x) (compareOn z)))

instance : Std.LawfulEqOrd ChunkPos where
  eq_of_compare {a b} h := by
    change compareLex (compareOn x) (compareOn z) a b = .eq at h
    obtain ⟨hx, hz⟩ : compare a.x b.x = .eq ∧ compare a.z b.z = .eq := by
      simpa only [compareLex, compareOn, Ordering.then_eq_eq] using h
    cases a; cases b
    simp_all

end ChunkPos

/-- The chunk over a position. -/
def Pos.chunk (p : Pos) : ChunkPos := ⟨p.x >>> 4, p.z >>> 4⟩

/-- The chunk that stores a position, if its layer is stored at all. -/
def Pos.chunk? (p : Pos) : Option ChunkPos := if p.inHeight then some p.chunk else none

/-- The number of the column over a position within its chunk. -/
def Pos.column (p : Pos) : Fin 256 :=
  ⟨(p.x.toInt % 16).toNat * 16 + (p.z.toInt % 16).toNat, by omega⟩

/-- The layer of a position. -/
def Pos.layer (p : Pos) : Fin 256 := ⟨(p.y.toInt % 256).toNat, by omega⟩

/-- The number of the cell of a position within its chunk. -/
def Pos.cellNumber (p : Pos) : Nat := p.column.val * 256 + p.layer.val

theorem toInt_shiftRight_four (v : Int32) : (v >>> 4).toInt = v.toInt / 16 := by
  have h : BitVec.smod (4 : Int32).toBitVec 32 = 4#32 := by decide
  rw [← Int32.toInt_toBitVec, Int32.toBitVec_shiftRight, h]
  simp [BitVec.sshiftRight', BitVec.toInt_sshiftRight, Int.shiftRight_eq_div_pow]

/-- A stored position is known from its chunk and its cell there. -/
theorem Pos.eq_of_cell_eq {p q : Pos} (hp : p.inHeight) (hq : q.inHeight)
    (hchunk : p.chunk = q.chunk) (hcolumn : p.column = q.column) (hlayer : p.layer = q.layer) :
    p = q := by
  obtain ⟨hx, hz⟩ := ChunkPos.mk.inj hchunk
  have hx := congrArg Int32.toInt hx
  have hz := congrArg Int32.toInt hz
  have hc := Fin.val_eq_of_eq hcolumn
  have hl := Fin.val_eq_of_eq hlayer
  rw [toInt_shiftRight_four, toInt_shiftRight_four] at hx hz
  simp only [Pos.inHeight_iff, Int32.le_iff_toInt_le, Int32.lt_iff_toInt_lt] at hp hq
  simp only [Pos.column, Pos.layer] at hc hl
  have h0 : (0 : Int32).toInt = 0 := Int32.toInt_zero
  have h256 : (256 : Int32).toInt = 256 := by decide
  have ex : p.x = q.x := Int32.toInt_inj.1 (by omega)
  have ey : p.y = q.y := Int32.toInt_inj.1 (by omega)
  have ez : p.z = q.z := Int32.toInt_inj.1 (by omega)
  cases p; cases q
  simp_all

/-- Changes one entry of a vector. -/
def modifyEntry {α : Type} {n : Nat} (v : Vector α n) (i : Fin n) (f : α → α) : Vector α n :=
  v.set i (f v[i])

structure Chunk where
  columns : Vector Column 256
deriving Inhabited

namespace Chunk

/-- The number of columns along one side of a chunk. -/
def width : Nat := 16

/-- The number of layers. -/
def layers : Nat := 256

/-- A chunk whose columns are all alike. -/
def uniform (c : Column) : Chunk := ⟨.replicate 256 c⟩

/-- A chunk of air. -/
def empty : Chunk := uniform .empty

def idAt (c : Chunk) (p : Pos) : BlockId := c.columns[p.column].idAt p.layer

def get (c : Chunk) (p : Pos) : Block := c.columns[p.column].get p.layer

/-- Changes one column. -/
def modifyColumn (c : Chunk) (k : Fin 256) (f : Column → Column) : Chunk :=
  ⟨modifyEntry c.columns k f⟩

/-- Writes one cell, keeping the low four bits of the metadata. -/
def set (c : Chunk) (p : Pos) (b : Block) : Chunk := c.modifyColumn p.column (·.set p.layer b)

/-- Writes `n` cells from cell number `i` on, with the metadata byte as it is. -/
def fillFrom (b : Block) : (n i : Nat) → Chunk → Option Chunk
  | 0, _, c => some c
  | n + 1, i, c =>
      if h : i < 65536 then
        fillFrom b n (i + 1)
          (c.modifyColumn ⟨i / 256, by omega⟩ (·.put ⟨i % 256, by omega⟩ b))
      else none

/-- The bottom cells of the columns of a box, `x` before `z`. -/
def boxFloor (start size : Pos) : List Pos :=
  (Span.halfOpen start.x (start.x + size.x)).toList.flatMap fun x =>
    (Span.halfOpen start.z (start.z + size.z)).toList.map fun z => ⟨x, start.y, z⟩

/-- Fills the box of the given size, if the chunk has all its cells. -/
def fill? (c : Chunk) (start size : Pos) (b : Block) : Option Chunk :=
  let tall := (Span.halfOpen start.y (start.y + size.y)).size
  (boxFloor start size).foldlM (fun c p => fillFrom b tall p.cellNumber c) c

/-- One above the highest cell over a position that is not air. -/
def height (c : Chunk) (p : Pos) : Nat := c.columns[p.column].height

theorem idAt_eq (c : Chunk) (p : Pos) : c.idAt p = (c.get p).id := rfl

/-- A chunk of equal columns reads as that column everywhere. -/
@[simp] theorem get_uniform (c : Column) (p : Pos) : (uniform c).get p = c.get p.layer := by
  simp [uniform, get]

/-- A write is read back at the positions that share its cell, and nowhere else. -/
theorem get_set (c : Chunk) (p q : Pos) (b : Block) :
    (c.set p b).get q = if q.column = p.column ∧ q.layer = p.layer then b.stored else c.get q := by
  by_cases hc : q.column = p.column
  · simp [get, set, modifyColumn, modifyEntry, hc, Column.get_set]
  · have : p.column.val ≠ q.column.val := fun e => hc (Fin.ext e.symm)
    simp [get, set, modifyColumn, modifyEntry, hc, Vector.getElem_set_ne, this]

end Chunk

end VoxelFeatures
