import VoxelFeatures.World.Basic
import VoxelFeatures.World.InsertionMap

/-!
# Journals

A journal is a world together with the writes that went through it. Each write
records the block as it was passed and the block that was there before. Raw
writes outside the height of the world are recorded too, though they change
nothing; a placement outside the height is skipped and leaves no record.

The diff of a journal has every position that was really written, in the order
of the first writes. Each write that the world takes puts there what the world
holds at its position from then on.
-/

namespace VoxelFeatures

structure Write where
  pos : Pos
  block : Block
  /-- Whether the neighbours are told of the change. -/
  notify : Bool
  /-- The block at the position before the write. -/
  before : Block
deriving DecidableEq, Repr, Inhabited

/-- What a write asked for: everything but the block that it replaced. -/
def Write.request (w : Write) : Pos × Block × Bool := (w.pos, w.block, w.notify)

structure Journal where
  world : World
  writes : Array Write
  diff : InsertionMap Pos Block

namespace Journal

/-- A journal without writes. -/
def ofWorld (w : World) : Journal := ⟨w, #[], .empty⟩

/-- The block at a position. -/
def get (j : Journal) (p : Pos) : Block := j.world.get p

/-- The block id at a position. -/
def idAt (j : Journal) (p : Pos) : BlockId := j.world.idAt p

theorem idAt_eq (j : Journal) (p : Pos) : j.idAt p = (j.get p).id := j.world.idAt_eq p

/-- Outside of the height all is air. -/
theorem inHeight_of_idAt_ne {j : Journal} {p : Pos} (h : j.idAt p ≠ .air) : p.inHeight := by
  cases hp : p.inHeight
  · exact absurd (by simp [idAt, World.idAt, hp]) h
  · rfl

/-- A raw write, and whether the world has taken it. -/
def write (j : Journal) (p : Pos) (b : Block) (notify : Bool) : Bool × Journal :=
  match j with
  | ⟨world, writes, diff⟩ =>
      let before := world.get p
      let (written, world) := world.write p b notify
      let diff := if written then diff.insert p (world.get p) else diff
      (written, ⟨world, writes.push ⟨p, b, notify, before⟩, diff⟩)

/-- The journal after a raw write. -/
def set (j : Journal) (p : Pos) (b : Block) (notify : Bool) : Journal := (j.write p b notify).2

/-- A placement, which is a write where the layer is one of the world's. -/
def place (j : Journal) (p : Pos) (b : Block) (notify : Bool) : Bool × Journal :=
  if p.inHeight then j.write p b notify else (false, j)

/-- Replaces a whole chunk of the world, of which the journal does not tell. -/
def setChunk (j : Journal) (place : ChunkPos) (c : Chunk) : Journal :=
  { j with world := j.world.setChunk place c }

/-- Forgets the writes and keeps the world. -/
def clear (j : Journal) : Journal := ofWorld j.world

theorem write_eq (j : Journal) (p : Pos) (b : Block) (notify : Bool) :
    j.write p b notify = (p.inHeight, j.set p b notify) :=
  Prod.ext (j.world.write_fst p b notify) rfl

theorem place_eq (j : Journal) (p : Pos) (b : Block) (notify : Bool) :
    j.place p b notify = (p.inHeight, if p.inHeight then j.set p b notify else j) := by
  rw [place, write_eq]
  split <;> simp_all

@[simp] theorem writes_ofWorld (w : World) : (ofWorld w).writes = #[] := rfl

@[simp] theorem diff_ofWorld (w : World) : (ofWorld w).diff = .empty := rfl

@[simp] theorem world_set (j : Journal) (p : Pos) (b : Block) (notify : Bool) :
    (j.set p b notify).world = j.world.set p b := j.world.write_snd p b notify

@[simp] theorem writes_set (j : Journal) (p : Pos) (b : Block) (notify : Bool) :
    (j.set p b notify).writes = j.writes.push ⟨p, b, notify, j.world.get p⟩ := rfl

theorem get_set (j : Journal) (p q : Pos) (b : Block) (notify : Bool) :
    (j.set p b notify).get q = (j.world.set p b).get q := by
  rw [get, world_set]

theorem idAt_set (j : Journal) (p q : Pos) (b : Block) (notify : Bool) :
    (j.set p b notify).idAt q = if p.inHeight ∧ q = p then b.id else j.idAt q := by
  rw [idAt, world_set]
  exact j.world.idAt_set p q b

/-- What a write leaves at its position goes into the diff, if the world takes it. -/
theorem diff_set (j : Journal) (p : Pos) (b : Block) (notify : Bool) :
    (j.set p b notify).diff =
      if p.inHeight then j.diff.insert p ((j.world.set p b).get p) else j.diff := by
  rw [← j.world.write_fst p b notify, ← j.world.write_snd p b notify]
  rfl

end Journal

end VoxelFeatures
